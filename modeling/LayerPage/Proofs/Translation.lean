/-
Moving a design. The same design at another place of the canvas is the
same page (`convert_translated`): where a design begins has no influence
on what is written, nor on what is complained about, nor on whether there
is a page at all.

# Two runs as one

A copy is any document whose layers stand where those of the original
stand, each moved by the same distance (`Layer.IsCopy`); it may come from
another reader and have layers of another type. To compare two runs that
have nothing in common but this, there is a third one: a layer side by
side with its copy is a layer again (`Layer.Pair`), and going from the
pair to either side is a map that moves all layers alike. What the run of
the pairs builds is mapped to what either run builds, and layout infers
the same on all three.
-/
import Mathlib.Data.List.Basic
import LayerPage.Proofs.Build.Offence
import LayerPage.Proofs.Layout.Moved
import LayerPage.Proofs.Layout.Position

namespace LayerPage

variable {α β : Type} [Layer α] [Layer β]

open Heuristic (selectAll hidings floatParent? complaints)
open Layout (carryOut visitWrites)

-- ================================================================ copies

namespace Layer

/-- Two layers with children at the same indices have related children if
those at one index are. -/
theorem rel_child? {R : α → β → Prop} {root : α} {copy : β} {i : Nat}
    (hi : i < childCount root) (hi' : i < childCount copy)
    (hforth : ∀ a, LiesAt root [i] a → ∃ b, LiesAt copy [i] b)
    (hback : ∀ b, LiesAt copy [i] b → ∃ a, LiesAt root [i] a)
    (h : ∀ a b, child? root i = some a → child? copy i = some b → R a b) :
    Option.Rel R (child? root i) (child? copy i) := by
  cases ha : child? root i with
  | none =>
      cases hb : child? copy i with
      | none => exact .none
      | some b =>
          obtain ⟨a, hat⟩ := hback b (.inside hi' hb (.here b))
          cases hat with
          | inside _ hother _ =>
              rw [ha] at hother
              cases hother
  | some a =>
      cases hb : child? copy i with
      | none =>
          obtain ⟨b, hat⟩ := hforth a (.inside hi ha (.here a))
          cases hat with
          | inside _ hother _ =>
              rw [hb] at hother
              cases hother
      | some b => exact .some (h a b ha hb)

/-- Whether a layer is another one, moved, regardless of what is below
both. -/
structure IsMoved (dx dy : Int) (layer : α) (copy : β) : Prop where
  name : name copy = name layer
  bounds : (bounds layer).IsMoved dx dy (bounds copy)
  kind : kind copy = kind layer
  childCount : childCount copy = childCount layer
  sample? : ∀ x y, sample? copy x y = sample? layer x y

/-- Whether a layer is a moved copy of another one with all that is below
it: both have layers at the same positions, and each layer is moved. -/
structure IsCopy (dx dy : Int) (root : α) (copy : β) : Prop where
  forth : ∀ path layer, LiesAt root path layer →
    ∃ layer', LiesAt copy path layer' ∧ IsMoved dx dy layer layer'
  back : ∀ path layer', LiesAt copy path layer' →
    ∃ layer, LiesAt root path layer

variable {dx dy : Int}

/-- A copy is moved at its root. -/
theorem IsCopy.isMoved {root : α} {copy : β} (h : IsCopy dx dy root copy) :
    IsMoved dx dy root copy := by
  obtain ⟨layer', hat, hmoved⟩ := h.forth [] root (.here root)
  cases hat
  exact hmoved

/-- A copy has a child wherever its original has one. -/
theorem IsCopy.lt_childCount {root : α} {copy : β}
    (h : IsCopy dx dy root copy) {i : Nat} (hi : i < childCount root) :
    i < childCount copy := by
  rw [h.isMoved.childCount]
  exact hi

/-- The children of a copy are copies of those of the original. -/
theorem IsCopy.of_child? {root a : α} {copy b : β}
    (h : IsCopy dx dy root copy) {i : Nat} (hi : i < childCount root)
    (ha : child? root i = some a) (hb : child? copy i = some b) :
    IsCopy dx dy a b := by
  constructor
  · intro path layer hlies
    obtain ⟨layer', hat, hmoved⟩ :=
      h.forth (i :: path) layer (.inside hi ha hlies)
    exact ⟨layer', hat.inChild hb, hmoved⟩
  · intro path layer' hlies
    obtain ⟨layer, hat⟩ :=
      h.back (i :: path) layer' (.inside (h.lt_childCount hi) hb hlies)
    exact ⟨layer, hat.inChild ha⟩

/-- The children of a copy are copies of the children. -/
theorem IsCopy.child? {root : α} {copy : β} (h : IsCopy dx dy root copy)
    {i : Nat} (hi : i < childCount root) :
    Option.Rel (IsCopy dx dy) (child? root i) (child? copy i) := by
  refine rel_child? hi (h.lt_childCount hi) ?_ (h.back [i])
    fun a b => h.of_child? hi
  intro a hat
  obtain ⟨b, hcopy, -⟩ := h.forth [i] a hat
  exact ⟨b, hcopy⟩

-- ================================================================ shifts

/-- Whether a layer that is moved keeps its place within 32 bits. -/
def Fits (dx dy : Int) (layer : α) : Prop :=
  (-2 ^ 31 ≤ (bounds layer).left + dx ∧ (bounds layer).left + dx < 2 ^ 31)
    ∧ (-2 ^ 31 ≤ (bounds layer).top + dy ∧ (bounds layer).top + dy < 2 ^ 31)

instance (dx dy : Int) (layer : α) : Decidable (Fits dx dy layer) :=
  inferInstanceAs (Decidable (_ ∧ _))

/-- A layer at another place. -/
structure Shifted (α : Type) where
  layer : α
  dx : Int
  dy : Int

instance : Layer (Shifted α) where
  name shifted := name shifted.layer
  bounds shifted :=
    { bounds shifted.layer with
      x := .ofInt ((bounds shifted.layer).left + shifted.dx)
      y := .ofInt ((bounds shifted.layer).top + shifted.dy) }
  kind shifted := kind shifted.layer
  childCount shifted := childCount shifted.layer
  child? shifted i :=
    (child? shifted.layer i).map ({ shifted with layer := · })
  sample? shifted := sample? shifted.layer

/-- A layer lies in a shifted one where it lies in the layer. -/
theorem liesAt_shifted_iff {root : α} {path : List Nat}
    {shifted : Shifted α} :
    LiesAt (⟨root, dx, dy⟩ : Shifted α) path shifted
      ↔ ∃ layer, LiesAt root path layer ∧ shifted = ⟨layer, dx, dy⟩ := by
  constructor
  · intro h
    generalize hroot : (⟨root, dx, dy⟩ : Shifted α) = start at h
    induction h generalizing root with
    | here =>
        subst hroot
        exact ⟨root, .here root, rfl⟩
    | inside hindex hchild _ ih =>
        subst hroot
        obtain ⟨child, hat, heq⟩ := Option.map_eq_some_iff.1 hchild
        obtain ⟨layer, hlies, hshifted⟩ := ih heq
        exact ⟨layer, .inside hindex hat hlies, hshifted⟩
  · intro h
    obtain ⟨layer, hlies, hshifted⟩ := h
    subst hshifted
    induction hlies with
    | here layer => exact .here _
    | inside hindex hchild _ ih =>
        refine .inside hindex ?_ ih
        exact Option.map_eq_some_iff.2 ⟨_, hchild, rfl⟩

/-- A layer that can be shifted is moved by it, with all below it. -/
theorem isMoved_shifted {layer : α} (h : Fits dx dy layer) :
    IsMoved dx dy layer (⟨layer, dx, dy⟩ : Shifted α) where
  name := rfl
  bounds :=
    { left := Int32.toInt_ofInt_of_le h.1.1 h.1.2
      top := Int32.toInt_ofInt_of_le h.2.1 h.2.2
      width := rfl
      height := rfl }
  kind := rfl
  childCount := rfl
  sample? _ _ := rfl

/-- A layer has a moved copy whenever all that is below it keeps its place
within 32 bits. -/
theorem isCopy_shifted {root : α}
    (h : ∀ path layer, LiesAt root path layer → Fits dx dy layer) :
    IsCopy dx dy root (⟨root, dx, dy⟩ : Shifted α) := by
  constructor
  · intro path layer hlies
    exact ⟨_, liesAt_shifted_iff.2 ⟨layer, hlies, rfl⟩,
      isMoved_shifted (h path layer hlies)⟩
  · intro path shifted hlies
    obtain ⟨layer, hat, -⟩ := liesAt_shifted_iff.1 hlies
    exact ⟨layer, hat⟩

/-- A layer keeps its place where it is. -/
theorem fits_zero (layer : α) : Fits 0 0 layer := by
  have hleft := (bounds layer).x.le_toInt
  have hleft' := (bounds layer).x.toInt_lt
  have htop := (bounds layer).y.le_toInt
  have htop' := (bounds layer).y.toInt_lt
  unfold Fits Bounds.left Bounds.top
  omega

-- ================================================================= pairs

/-- A layer side by side with its moved copy. -/
structure Pair (dx dy : Int) (α β : Type) [Layer α] [Layer β] where
  original : α
  copy : β
  isCopy : IsCopy dx dy original copy

/-- What is there on both sides, side by side. -/
def Pair.ofRel : (a? : Option α) → (b? : Option β) →
    Option.Rel (IsCopy dx dy) a? b? → Option (Pair dx dy α β)
  | some a, some b, h => some ⟨a, b, match h with | .some h => h⟩
  | none, _, _ => none
  | some _, none, _ => none

theorem Pair.map_original_ofRel {a? : Option α} {b? : Option β}
    (h : Option.Rel (IsCopy dx dy) a? b?) :
    (Pair.ofRel a? b? h).map (·.original) = a? := by
  cases h with
  | none => rfl
  | some _ => rfl

theorem Pair.map_copy_ofRel {a? : Option α} {b? : Option β}
    (h : Option.Rel (IsCopy dx dy) a? b?) :
    (Pair.ofRel a? b? h).map (·.copy) = b? := by
  cases h with
  | none => rfl
  | some _ => rfl

/-- A pair is a layer like its original. -/
instance : Layer (Pair dx dy α β) where
  name pair := name pair.original
  bounds pair := bounds pair.original
  kind pair := kind pair.original
  childCount pair := childCount pair.original
  child? pair i :=
    if hi : i < childCount pair.original then
      Pair.ofRel _ _ (pair.isCopy.child? hi)
    else none
  sample? pair := sample? pair.original

/-- The children of a pair are pairs of children. -/
theorem Pair.child?_of_lt {pair : Pair dx dy α β} {i : Nat}
    (hi : i < childCount pair.original) :
    Layer.child? pair i = Pair.ofRel _ _ (pair.isCopy.child? hi) :=
  dif_pos hi

/-- The first of a pair shows all that the pair shows, where it is. -/
theorem Pair.moves_original :
    Moves 0 0 (Pair.original : Pair dx dy α β → α) where
  name _ := rfl
  kind _ := rfl
  childCount _ := rfl
  child? pair i hi := by
    rw [Pair.child?_of_lt hi, Pair.map_original_ofRel]
  bounds _ := ⟨(Int.add_zero _).symm, (Int.add_zero _).symm, rfl, rfl⟩
  sample? _ _ _ := rfl

/-- The second one of a pair shows all that the pair shows, as far away as
it was moved. -/
theorem Pair.moves_copy :
    Moves dx dy (Pair.copy : Pair dx dy α β → β) where
  name pair := pair.isCopy.isMoved.name
  kind pair := pair.isCopy.isMoved.kind
  childCount pair := pair.isCopy.isMoved.childCount
  child? pair i hi := by
    rw [Pair.child?_of_lt hi, Pair.map_copy_ofRel]
  bounds pair := pair.isCopy.isMoved.bounds
  sample? pair := pair.isCopy.isMoved.sample?

end Layer

-- ============================================================== outcomes

/-- What a document converts to as far as a reader can see: the text of
the page, and what was met on the way. -/
def Conversion.outcome (conversion : Conversion α) :
    String × List Diagnostic :=
  (conversion.page.render, conversion.diagnostics)

namespace BuiltTree

/-- The tree after layout and heuristics. -/
def finished (built : BuiltTree α) : ElementTree α :=
  carryOut (selectAll built.laidOut built.visits)
    (hidings (built.visits.filterMap (floatParent? built.laidOut)))

/-- All passes after building change nothing but rules. -/
theorem restyled_finished (built : BuiltTree α) :
    built.tree.Restyled built.finished :=
  built.restyled_laidOut.trans
    ((Heuristic.restyled_selectAll ..).trans (Layout.restyled_carryOut ..))

/-- What a tree is converted to after it was built, given the settings. -/
def conversion (settings : Configuration × List Diagnostic)
    (built : BuiltTree α) : Conversion α where
  page :=
    { tree := built.finished
      root := built.root
      stylesheetOrder := built.stylesheet
      config := settings.1 }
  diagnostics := settings.2 ++ built.diagnostics
    ++ built.visits.flatMap (complaints built.laidOut)

end BuiltTree

/-- Converting is building, and then what follows from the tree that was
built and from the settings. -/
theorem Converter.convert_eq_map_build {source : LayerDocument α} {body : α}
    (hbody : source.layer? 0 = some body) :
    Converter.convert {} source
      = (BuiltTree.build Metadata.builtin body).map
          (·.conversion (readConfiguration source)) := by
  unfold Converter.convert
  rw [hbody]
  cases hbuild : BuiltTree.build Metadata.builtin body with
  | error fault =>
      simp only [hbuild]
      rfl
  | ok built =>
      obtain ⟨below, -, hbuilt⟩ :=
        Construction.builtFrom Metadata.decorates_builtin hbuild
      have hreset : built.reset.WellFormed built.root :=
        hbuilt.reset_wellFormed
      have hvisits : Layout.VisitOrder built.reset built.visits :=
        Layout.visitOrder_descendants hreset
      have hrefined : Converter.refineAll {}
          (built.tree.modifyStyle built.root resetRoot)
          ((built.tree.modifyStyle built.root resetRoot).descendants
            built.root)
          = (built.finished,
            built.visits.flatMap (complaints built.laidOut)) := by
        show Converter.refineAll {} built.reset built.visits = _
        rw [Converter.refineAll_eq_passes hreset hvisits,
          Layout.run_eq_carryOut hreset hvisits, Heuristic.runAll_builtin]
        rfl
      simp only [hbuild]
      rw [hrefined]
      rfl

-- ===================================================== moving an outcome

section

variable {f : α → β} {dx dy : Int}

omit [Layer α] [Layer β] in
/-- Resetting the root does not look at layers. -/
theorem BuiltTree.reset_map (f : α → β) (built : BuiltTree α) :
    (built.map f).reset = built.reset.map f :=
  (ElementTree.map_modifyStyle ..).symm

omit [Layer α] [Layer β] in
/-- The elements are visited in the same order. -/
theorem BuiltTree.visits_map (f : α → β) (built : BuiltTree α) :
    (built.map f).visits = built.visits := by
  unfold visits
  rw [reset_map, ElementTree.descendants_map]
  rfl

/-- Layout looks at distances alone, and those are the same. -/
theorem BuiltTree.laidOut_map (h : Layer.Displaces dx dy f)
    {built : BuiltTree α} (hwell : built.reset.WellFormed built.root) :
    (built.map f).laidOut = built.laidOut.map f := by
  have hvisit : ∀ u ∈ built.visits,
      visitWrites (built.reset.map f) u = visitWrites built.reset u := by
    intro u hu
    unfold visits at hu
    rw [hwell.descendants_root, ElementTree.mem_attached_iff] at hu
    obtain ⟨e, hget, -⟩ := hu
    exact Layout.visitWrites_map h hwell
      (ElementTree.get?_isSome_iff.1 ⟨e, hget⟩)
  unfold laidOut
  rw [reset_map, visits_map, List.flatMap_congr hvisit,
    ElementTree.map_carryOut]

/-- The heuristics that come after layout do not look at layers, so the
finished tree is the same apart from these. -/
theorem BuiltTree.finished_map (h : Layer.Displaces dx dy f)
    {built : BuiltTree α} (hwell : built.reset.WellFormed built.root) :
    (built.map f).finished = built.finished.map f := by
  unfold finished
  rw [laidOut_map h hwell, visits_map,
    funext (ElementTree.floatParent?_map f _), ElementTree.map_carryOut,
    ElementTree.map_selectAll]

/-- What is complained about are attributes, by the names of layers. -/
theorem Heuristic.complaints_map (h : Layer.Keeps f) (tree : ElementTree α)
    (id : ElementId) : complaints (tree.map f) id = complaints tree id := by
  apply complaints_eq_of_map
  apply ElementTree.map_get?_map
  intro e
  exact congrArg (Prod.mk e.hasBlankClass) (h.name e.layer)

omit [Layer α] [Layer β] in
/-- No text of a page comes from the layers behind its elements. -/
theorem Page.render_map (f : α → β) (page : Page α) :
    ({ page with tree := page.tree.map f } : Page β).render
      = page.render := by
  have hrules : ({ page with tree := page.tree.map f } : Page β).rules
      = page.rules := by
    unfold rules
    rw [funext fun id => ElementTree.map_get?_map f page.tree id
      (g := fun e => e.style) fun _ => rfl]
  have hbody : ({ page with tree := page.tree.map f } : Page β).body
      = page.body := by
    unfold body
    rw [ElementTree.markup?_map]
    rfl
  unfold render stylesheet
  rw [hrules, hbody]
  rfl

/-- The outcome of a conversion stays the same when the layers move. -/
theorem BuiltTree.outcome_conversion_map (h : Layer.Moves dx dy f)
    {built : BuiltTree α} (hwell : built.reset.WellFormed built.root)
    (settings : Configuration × List Diagnostic) :
    ((built.map f).conversion settings).outcome
      = (built.conversion settings).outcome := by
  have hcomplaints : ∀ id, complaints (built.map f).laidOut id
      = complaints built.laidOut id := by
    intro id
    rw [laidOut_map h.toDisplaces hwell,
      Heuristic.complaints_map h.toKeeps]
  apply Prod.ext
  · show Page.render ⟨(built.map f).finished, _, _, _⟩ = _
    rw [finished_map h.toDisplaces hwell]
    exact Page.render_map f (built.conversion settings).page
  · show settings.2 ++ built.diagnostics ++ _ = _
    rw [visits_map, funext hcomplaints]
    rfl

/-- What a document converts to can be read off the tree of any layers that
are moved to its own. -/
theorem Converter.outcome_eq_of_moves (h : Layer.Moves dx dy f)
    {source : LayerDocument β} {root : α}
    (hbody : source.layer? 0 = some (f root)) :
    (Converter.convert {} source).map (·.outcome)
      = (BuiltTree.build Metadata.builtin root).map
          fun built =>
            (built.conversion (readConfiguration source)).outcome := by
  rw [convert_eq_map_build hbody, BuiltTree.build_map h.toKeeps]
  cases hbuild : BuiltTree.build Metadata.builtin root with
  | error fault => rfl
  | ok built =>
      obtain ⟨below, -, hbuilt⟩ :=
        Construction.builtFrom Metadata.decorates_builtin hbuild
      exact congrArg Except.ok
        (BuiltTree.outcome_conversion_map h hbuilt.reset_wellFormed _)

/-- The layers of a group have the names they had. -/
theorem Layer.presentChildren_map (h : Layer.Keeps f) (layer : α) :
    presentChildren (f layer) = (presentChildren layer).map f := by
  have hfrom : ∀ count index, index + count = childCount layer →
      childrenFrom (f layer) count index
        = (childrenFrom layer count index).map f := by
    intro count
    induction count with
    | zero => intro index _; rfl
    | succ count ih =>
        intro index hcount
        rw [childrenFrom, childrenFrom, h.child? layer index (by omega),
          ih (index + 1) (by omega)]
        cases Layer.child? layer index with
        | none => rfl
        | some child => rfl
  unfold presentChildren
  rw [h.childCount, hfrom _ _ (Nat.zero_add _)]

/-- Settings are read from names, wherever the layers are. -/
theorem Configuration.ofGroup_map (h : Layer.Keeps f) (group : α) :
    ofGroup (f group) = ofGroup group := by
  unfold ofGroup
  rw [Layer.presentChildren_map h, List.foldl_map]
  simp only [h.name]

end

-- ============================================================== documents

/-- Whether a document is a copy of another one with its body moved: the
first layer is a moved copy, and the other layers are copies where they
were. -/
structure LayerDocument.IsCopy (dx dy : Int) (source : LayerDocument α)
    (copy : LayerDocument β) : Prop where
  body : Option.Rel (Layer.IsCopy dx dy) (source.layer? 0) (copy.layer? 0)
  others : ∀ i, Option.Rel (Layer.IsCopy 0 0) (source.layer? (i + 1))
    (copy.layer? (i + 1))

/-- The document with its body at another place. -/
def LayerDocument.shift (dx dy : Int) (source : LayerDocument α) :
    LayerDocument (Layer.Shifted α) where
  layer?
    | 0 => (source.layer? 0).map (⟨·, dx, dy⟩)
    | i + 1 => (source.layer? (i + 1)).map (⟨·, 0, 0⟩)

/-- A document has a moved copy whenever its body keeps its place within
32 bits. -/
theorem LayerDocument.isCopy_shift {dx dy : Int} {source : LayerDocument α}
    (h : ∀ body, source.layer? 0 = some body →
      ∀ path layer, Layer.LiesAt body path layer →
        Layer.Fits dx dy layer) :
    source.IsCopy dx dy (source.shift dx dy) := by
  constructor
  · show Option.Rel _ _ ((source.layer? 0).map _)
    cases hbody : source.layer? 0 with
    | none => exact .none
    | some body => exact .some (Layer.isCopy_shifted (h body hbody))
  · intro i
    show Option.Rel _ _ ((source.layer? (i + 1)).map _)
    cases source.layer? (i + 1) with
    | none => exact .none
    | some layer =>
        exact .some (Layer.isCopy_shifted fun _ below _ =>
          Layer.fits_zero below)

/-- Documents whose second layers are copies have the same settings. -/
theorem Converter.readConfiguration_copy {source : LayerDocument α}
    {copy : LayerDocument β}
    (hgroup : Option.Rel (Layer.IsCopy 0 0) (source.layer? 1)
      (copy.layer? 1)) :
    readConfiguration copy = readConfiguration source := by
  unfold readConfiguration
  generalize source.layer? 1 = a? at hgroup ⊢
  generalize copy.layer? 1 = b? at hgroup ⊢
  cases hgroup with
  | none => rfl
  | some hcopy =>
      rename_i a b
      let pair : Layer.Pair 0 0 α β := ⟨a, b, hcopy⟩
      have hname : Layer.name b = Layer.name a := hcopy.isMoved.name
      have hleft : Configuration.ofGroup a = Configuration.ofGroup pair :=
        Configuration.ofGroup_map Layer.Pair.moves_original.toKeeps pair
      have hright : Configuration.ofGroup b = Configuration.ofGroup pair :=
        Configuration.ofGroup_map Layer.Pair.moves_copy.toKeeps pair
      simp only [hname, hleft, hright]

/-- Moving the body of a document changes nothing that a reader can see:
if all layers of the body are moved by the same distance, the conversion
ends with the same fault, or with a page of the same text and with the
same diagnostics. -/
theorem convert_translated {dx dy : Int} {source : LayerDocument α}
    {copy : LayerDocument β} (h : source.IsCopy dx dy copy) :
    (Converter.convert {} copy).map (·.outcome)
      = (Converter.convert {} source).map (·.outcome) := by
  have hbody := h.body
  cases hsource : source.layer? 0 with
  | none =>
      rw [hsource] at hbody
      cases hcopy : copy.layer? 0 with
      | some b =>
          rw [hcopy] at hbody
          cases hbody
      | none =>
          unfold Converter.convert
          rw [hsource, hcopy]
          rfl
  | some a =>
      rw [hsource] at hbody
      cases hcopy : copy.layer? 0 with
      | none =>
          rw [hcopy] at hbody
          cases hbody
      | some b =>
          rw [hcopy] at hbody
          cases hbody with
          | some hmoved =>
              let pair : Layer.Pair dx dy α β := ⟨a, b, hmoved⟩
              have hleft : source.layer? 0 = some pair.original := hsource
              have hright : copy.layer? 0 = some pair.copy := hcopy
              -- both runs are read off the one that builds from the pair
              rw [Converter.outcome_eq_of_moves Layer.Pair.moves_copy hright,
                Converter.outcome_eq_of_moves Layer.Pair.moves_original hleft,
                Converter.readConfiguration_copy (h.others 0)]

/-- The page of the grid with a title. -/
def gridDocument : LayerDocument ManifestLayer :=
  .ofList [gridPage,
    .folder "configuration" {} [.folder "title=\"Grid\"" {} []]]

/-- The page of the grid has room in the far corner of the canvas, where
the right edges of its layers lie beyond 32 bits. -/
theorem gridPage_fits (path : List Nat) (layer : ManifestLayer)
    (h : Layer.LiesAt gridPage path layer) :
    Layer.Fits 2147483487 (-2147483638) layer := by
  have hfits : ((Construction.unfold 3 gridPage).toOption.map fun below =>
      (gridPage :: below.labels).all fun layer =>
        decide (Layer.Fits 2147483487 (-2147483638) layer)) = some true := by
    decide +kernel
  cases hunfold : Construction.unfold 3 gridPage with
  | error fault =>
      rw [hunfold] at hfits
      cases hfits
  | ok below =>
      rw [hunfold] at hfits
      have hall := List.all_eq_true.1 (Option.some.inj hfits)
      exact of_decide_eq_true (hall layer
        (h.mem_labels (Construction.isBelow_of_unfold hunfold)))

/-- The page of the grid converts alike in the far corner. -/
theorem gridDocument_translated :
    ∃ dx dy conversion, dx = 2147483487 ∧ dy = -2147483638
      ∧ Converter.convert {} gridDocument = .ok conversion
      ∧ gridDocument.IsCopy dx dy (gridDocument.shift dx dy)
      ∧ (Converter.convert {} (gridDocument.shift dx dy)).map (·.outcome)
        = .ok conversion.outcome := by
  obtain ⟨built, hbuilt⟩ : ∃ built,
    BuiltTree.build Metadata.builtin gridPage = .ok built := ⟨_, rfl⟩
  obtain ⟨conversion, hconvert⟩ : ∃ conversion,
      Converter.convert {} gridDocument = .ok conversion :=
    Converter.exists_convert_eq_ok rfl hbuilt
  have hcopy : gridDocument.IsCopy 2147483487 (-2147483638)
      (gridDocument.shift 2147483487 (-2147483638)) := by
    apply LayerDocument.isCopy_shift
    intro body hbody path layer hlies
    cases hbody
    exact gridPage_fits path layer hlies
  have hsame := convert_translated hcopy
  rw [hconvert] at hsame
  exact ⟨_, _, conversion, rfl, rfl, hconvert, hcopy, hsame⟩

end LayerPage
