/-
A heuristic that always fails, and changes nothing when it does, is not
seen on the page. Two conversions are compared, with and without it among
any other heuristics. They show the same tree to everything that runs, so
they stay in step through all elements, and only what they report drifts
apart: by one warning for each element.

# What carries the comparison

At one element, a chain is its first part and then the rest
(`applyAll_append`), and the failing heuristic between the two hands on the
tree it was given (`attempt_failing`). `refineAll_failing` is the induction
on the elements. It keeps the equality of the trees, and that the tree
differs from the one that was built in rules and attributes alone
(`Adorned`), so that every warning names the layer of its element.

The other heuristics may fail as well, before or after they have changed
something.
-/
import LayerPage.Proofs.Conversion
import LayerPage.Proofs.Element.Decorated

namespace LayerPage

variable {α : Type}

-- ============================================================= adornment

namespace ElementTree

/-- The name of the layer of an element. -/
def layerName? [Layer α] (tree : ElementTree α) (id : ElementId) :
    Option String :=
  (tree.get? id).map (·.layerName)

theorem Adorned.layerName? [Layer α] {t t' : ElementTree α}
    (h : t.Adorned t') (id : ElementId) :
    t'.layerName? id = t.layerName? id :=
  h.map_get? (fun e e' hstep => by
    unfold Element.layerName
    rw [hstep]) id

end ElementTree

-- =========================================================== one element

namespace Heuristic

/-- Whether a heuristic changes nothing but attributes and rules, failing
or not. -/
def Adorns (heuristic : Heuristic α) : Prop :=
  ∀ (tree : ElementTree α) id, tree.Adorned (heuristic.after tree id)

/-- Whether a heuristic fails at every element of every tree, and changes
nothing. -/
def AlwaysFails (heuristic : Heuristic α) : Prop :=
  ∀ (tree : ElementTree α) id,
    (∃ fault, heuristic.change tree id = .error fault)
      ∧ heuristic.abandoned tree id = tree

/-- Every built-in heuristic changes attributes and rules only. -/
theorem adorns_builtin :
    ∀ heuristic ∈ (builtin : List (Heuristic α)), heuristic.Adorns :=
  fun heuristic hmem tree id =>
    (restyles_builtin heuristic hmem tree id).adorned

variable [Layer α]

/-- Whether a diagnostic is the warning that a heuristic fails at an element
of a layer. -/
def WarnsAt (heuristic : Heuristic α) (id : ElementId)
    (layerName? : Option String) (d : Diagnostic) : Prop :=
  ∃ shown fault, heuristic.change shown id = .error fault
    ∧ d = { code := "strata::heuristic", message := fault.message
            layer? := layerName? }

theorem applyAll_append (first later : List (Heuristic α))
    (tree : ElementTree α) (id : ElementId) :
    applyAll (first ++ later) tree id
      = ((applyAll later (applyAll first tree id).1 id).1,
        (applyAll first tree id).2
          ++ (applyAll later (applyAll first tree id).1 id).2) := by
  induction first generalizing tree with
  | nil => rfl
  | cons heuristic rest ih =>
      rw [List.cons_append, applyAll_cons, applyAll_cons, ih,
        List.append_assoc]

/-- A heuristic that always fails hands on the tree, with one warning. -/
theorem attempt_failing {failing : Heuristic α} (hfail : failing.AlwaysFails)
    (tree : ElementTree α) (id : ElementId) :
    ∃ warning, attempt failing tree id = (tree, [warning])
      ∧ failing.WarnsAt id (tree.layerName? id) warning := by
  obtain ⟨⟨fault, hfault⟩, hleft⟩ := hfail tree id
  refine ⟨_, ?_, tree, fault, hfault, rfl⟩
  unfold attempt
  rw [hfault]
  simp only [hleft]
  rfl

/-- So a chain that it is a part of does what it does without it, and
reports one thing more. -/
theorem applyAll_failing {failing : Heuristic α}
    (hfail : failing.AlwaysFails) (earlier later : List (Heuristic α))
    (tree : ElementTree α) (id : ElementId) :
    ∃ changed before warning after,
      applyAll (earlier ++ later) tree id = (changed, before ++ after)
        ∧ applyAll (earlier ++ failing :: later) tree id
          = (changed, before ++ warning :: after)
        ∧ failing.WarnsAt id
          ((applyAll earlier tree id).1.layerName? id) warning := by
  obtain ⟨warning, hattempt, hwarns⟩ :=
    attempt_failing hfail (applyAll earlier tree id).1 id
  refine ⟨_, _, warning, _, applyAll_append earlier later tree id, ?_,
    hwarns⟩
  rw [applyAll_append, applyAll_cons, hattempt]
  rfl

end Heuristic

-- ========================================================= all elements

/-- Two lists of diagnostics, met at some elements one after another, of
which the second has exactly one more than the first one at each of
them. -/
inductive OneMoreEach (IsExtra : ElementId → Diagnostic → Prop) :
    List ElementId → List Diagnostic → List Diagnostic → Prop
  | done : OneMoreEach IsExtra [] [] []
  | next {id : ElementId} {ids : List ElementId} {extra : Diagnostic}
      {before after fewer more : List Diagnostic} :
      IsExtra id extra → OneMoreEach IsExtra ids fewer more →
      OneMoreEach IsExtra (id :: ids) ((before ++ after) ++ fewer)
        ((before ++ extra :: after) ++ more)

namespace Converter

variable [Layer α]

theorem refineAll_cons (converter : Converter α) (tree : ElementTree α)
    (id : ElementId) (rest : List ElementId) :
    converter.refineAll tree (id :: rest)
      = ((converter.refineAll (converter.refine tree id).1 rest).1,
        (converter.refine tree id).2
          ++ (converter.refineAll (converter.refine tree id).1 rest).2) :=
  Heuristic.foldl_met converter.refine rest (converter.refine tree id).1
    (converter.refine tree id).2

/-- Refining, with and without a heuristic that always fails. -/
theorem refineAll_failing {failing : Heuristic α}
    (hfail : failing.AlwaysFails) {earlier later : List (Heuristic α)}
    (hadorn : ∀ heuristic ∈ earlier ++ later, heuristic.Adorns)
    {built : ElementTree α} (metadata : MetadataRegistry α)
    (ids : List ElementId) {tree : ElementTree α}
    (htree : built.Adorned tree) :
    ∃ refined fewer more,
      refineAll ⟨metadata, earlier ++ later⟩ tree ids = (refined, fewer)
        ∧ refineAll ⟨metadata, earlier ++ failing :: later⟩ tree ids
          = (refined, more)
        ∧ built.Adorned refined
        ∧ OneMoreEach
          (fun id => failing.WarnsAt id (built.layerName? id))
          ids fewer more := by
  -- any heuristics that adorn keep what is known of the tree
  have hkeep : ∀ heuristics : List (Heuristic α),
      (∀ heuristic ∈ heuristics, heuristic.Adorns) →
      ∀ {now : ElementTree α}, built.Adorned now → ∀ id,
        built.Adorned (Heuristic.applyAll heuristics now id).1 := by
    intro heuristics heach now hnow id
    exact Heuristic.applyAll_induct
      (fun heuristic hmem tree id hreached =>
        hreached.trans (heach heuristic hmem tree id)) hnow id
  induction ids generalizing tree with
  | nil => exact ⟨tree, [], [], rfl, rfl, htree, .done⟩
  | cons id rest ih =>
      have hlaid : built.Adorned (Layout.inferStyle tree id) :=
        htree.trans (Layout.restyled_inferStyle tree id).adorned
      -- the one that fails leaves the same tree to those after it
      obtain ⟨changed, before, warning, after, hfewer, hmore, hwarns⟩ :=
        Heuristic.applyAll_failing hfail earlier later
          (Layout.inferStyle tree id) id
      have hearlier := hkeep earlier
        (fun heuristic hmem => hadorn heuristic (List.mem_append_left _ hmem))
        hlaid id
      have hchanged := hkeep (earlier ++ later) hadorn hlaid id
      rw [hfewer] at hchanged
      rw [hearlier.layerName?] at hwarns
      obtain ⟨refined, fewer, more, hquiet, hloud, hrefined, hrest⟩ :=
        ih hchanged
      refine ⟨refined, (before ++ after) ++ fewer,
        (before ++ warning :: after) ++ more, ?_, ?_, hrefined,
        .next hwarns hrest⟩
      · have hstep : refine ⟨metadata, earlier ++ later⟩ tree id
            = (changed, before ++ after) := hfewer
        rw [refineAll_cons, hstep, hquiet]
      · have hstep : refine ⟨metadata, earlier ++ failing :: later⟩ tree id
            = (changed, before ++ warning :: after) := hmore
        rw [refineAll_cons, hstep, hloud]

end Converter

-- ============================================================ conversion

variable [Layer α]

/-- What a heuristic that fails adds to an outcome: page or fault are the
same, and there is one warning more for each attached element. -/
structure Heuristic.OnlyWarns (failing : Heuristic α)
    (loud quiet : Except Fault (Conversion α)) : Prop where
  page : loud.map (·.page) = quiet.map (·.page)
  diagnostics : ∀ conversion other, loud = .ok conversion →
    quiet = .ok other →
    conversion.page.render = other.page.render
      ∧ ∃ front fewer more, other.diagnostics = front ++ fewer
        ∧ conversion.diagnostics = front ++ more
        ∧ OneMoreEach
          (fun id => failing.WarnsAt id (conversion.page.tree.layerName? id))
          conversion.page.tree.attached fewer more

/-- Whatever the document, and whatever the heuristics before and after one
that always fails: all it adds is a warning for each attached element. -/
theorem convert_failing {metadata : MetadataRegistry α}
    (hreg : Metadata.Decorates metadata) {failing : Heuristic α}
    (hfail : failing.AlwaysFails) {earlier later : List (Heuristic α)}
    (hadorn : ∀ heuristic ∈ earlier ++ later, heuristic.Adorns)
    (source : LayerDocument α) :
    failing.OnlyWarns
      (Converter.convert ⟨metadata, earlier ++ failing :: later⟩ source)
      (Converter.convert ⟨metadata, earlier ++ later⟩ source) := by
  unfold Converter.convert
  cases hbody : source.layer? 0 with
  | none => exact ⟨rfl, fun _ _ h => nomatch h⟩
  | some body =>
      cases hbuild : BuiltTree.build metadata body with
      | error fault =>
          simp only [hbuild]
          exact ⟨rfl, fun _ _ h => nomatch h⟩
      | ok built =>
          obtain ⟨-, hwell⟩ := build_wellFormed hreg hbuild
          obtain ⟨refined, fewer, more, hquiet, hloud, hrefined, hmore⟩ :=
            Converter.refineAll_failing hfail hadorn metadata built.visits
              (.refl built.reset)
          -- the elements visited are the attached ones of the page
          have hvisits : built.visits = refined.attached := by
            rw [BuiltTree.visits, built.restyled_reset.descendants,
              hwell.descendants_root, hrefined.attached,
              built.restyled_reset.attached]
          have hnames : built.reset.layerName? = refined.layerName? :=
            funext fun id => (hrefined.layerName? id).symm
          have hreset : built.tree.modifyStyle built.root Converter.resetRoot
              = built.reset := rfl
          have hwalk : built.reset.descendants built.root = built.visits :=
            rfl
          rw [hnames, hvisits] at hmore
          simp only [hbuild]
          rw [hreset, hwalk, hquiet, hloud]
          refine ⟨rfl, ?_⟩
          rintro conversion other h h'
          cases h
          cases h'
          exact ⟨rfl, _, fewer, more, rfl, rfl, hmore⟩

/-- A heuristic that applies nowhere. -/
def Heuristic.inapplicable : Heuristic α where
  name := "inapplicable"
  change _ _ := .error (.heuristic "inapplicable" "nothing to do")

/-- A heuristic that marks an element, and fails then. -/
def Heuristic.stumbling : Heuristic α where
  name := "stumbling"
  change _ _ := .error (.heuristic "stumbling" "not finished")
  abandoned tree id := tree.modify id (·.setAttribute "data-mark" "half")

/-- The first one among the builtin heuristics and the second one, on the
sample page. -/
theorem samplePage_failing :
    Metadata.Decorates (Metadata.builtin : MetadataRegistry ManifestLayer)
      ∧ (Heuristic.inapplicable : Heuristic ManifestLayer).AlwaysFails
      ∧ (∀ heuristic ∈ [Heuristic.stumbling]
          ++ (Heuristic.builtin : List (Heuristic ManifestLayer)),
          heuristic.Adorns)
      ∧ Heuristic.inapplicable.OnlyWarns
        (Converter.convert ⟨Metadata.builtin,
          [.stumbling] ++ .inapplicable :: Heuristic.builtin⟩
          (.ofList [samplePage]))
        (Converter.convert ⟨Metadata.builtin,
          [.stumbling] ++ Heuristic.builtin⟩ (.ofList [samplePage])) := by
  have hfail : (Heuristic.inapplicable
      : Heuristic ManifestLayer).AlwaysFails :=
    fun _ _ => ⟨⟨_, rfl⟩, rfl⟩
  have hadorn : ∀ heuristic ∈ [Heuristic.stumbling]
      ++ (Heuristic.builtin : List (Heuristic ManifestLayer)),
      heuristic.Adorns := by
    intro heuristic hmem
    rcases List.mem_append.1 hmem with hmem | hmem
    · cases List.mem_singleton.1 hmem
      exact fun tree id => ElementTree.adorned_modify
        (f := (·.setAttribute "data-mark" "half")) (fun _ => rfl) tree id
    · exact Heuristic.adorns_builtin heuristic hmem
  exact ⟨Metadata.decorates_builtin, hfail, hadorn,
    convert_failing Metadata.decorates_builtin hfail hadorn _⟩

end LayerPage
