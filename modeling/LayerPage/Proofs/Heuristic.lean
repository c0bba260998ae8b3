/-
The builtin heuristics as equations. At one element they do three things,
and none of them reads what another one writes:

- the element is selected by its first class (`select`), which depends on
  its tag and its attributes alone;
- the overflow of its parent is hidden if the element floats
  (`hidings`), which is an inference like those of layout;
- a class attribute without a class in it is complained about.

So a whole pass of heuristics is known from the tree before it
(`runAll_builtin`), and both kinds of change commute with the inferences
of layout, which write neither selectors nor overflow.
-/
import LayerPage.Heuristic
import LayerPage.Proofs.Layout.Trace

namespace LayerPage

variable {α : Type}

namespace Element

/-- The selector of an element by the first of its classes, if it has a
class and no identifier. -/
def classSelector? (e : Element α) : Option String :=
  if e.identifier?.isSome then none
  else (e.attribute? "class").bind fun classes =>
    (Text.firstWord? classes.toList).map fun first =>
      e.tag ++ "." ++ String.ofList first

/-- Whether an element without identifier has a class attribute that names
no class. -/
def hasBlankClass (e : Element α) : Bool :=
  e.identifier?.isNone && (e.attribute? "class").any fun classes =>
    (Text.firstWord? classes.toList).isNone

/-- An element has no identifier if its attribute `id` is not set, or is set
to nothing. -/
theorem identifier?_eq_none_iff {e : Element α} :
    e.identifier? = none
      ↔ ∀ identifier, e.attribute? "id" = some identifier →
        identifier = "" := by
  rw [identifier?, Option.filter_eq_none_iff]
  simp only [Bool.not_eq_true', Bool.not_eq_false, String.isEmpty_iff]

/-- An element selected by its first class, or as before. -/
def reselected (e : Element α) : Element α :=
  e.modifyStyle (·.withSelector (e.classSelector?.getD e.style.selector))

/-- A selector is no declaration, so nothing is pinned or freed by it. -/
theorem restyled_reselected (e : Element α) : e.Restyled e.reselected :=
  restyled_modifyStyle (fun _ _ => StyleRule.pin?_withSelector ..) e

/-- Which selector an element takes does not depend on its rule. -/
theorem reselected_modifyStyle_infer (e : Element α)
    (property value : String) :
    (e.modifyStyle (·.infer property value)).reselected
      = e.reselected.modifyStyle (·.infer property value) := by
  have hrule : (e.style.infer property value).withSelector
        (e.classSelector?.getD (e.style.infer property value).selector)
      = (e.style.withSelector
          (e.classSelector?.getD e.style.selector)).infer property value := by
    rw [StyleRule.infer_withSelector, StyleRule.infer_selector]
  show ({ e with style := _ } : Element α) = { e with style := _ }
  congr 1

/-- A class attribute without a class in it selects nothing. -/
theorem classSelector?_of_hasBlankClass {e : Element α}
    (h : e.hasBlankClass = true) : e.classSelector? = none := by
  unfold hasBlankClass at h
  unfold classSelector?
  rw [Bool.and_eq_true, Option.isNone_iff_eq_none, Option.any_eq_true] at h
  obtain ⟨hid, classes, hclass, hfirst⟩ := h
  rw [Option.isNone_iff_eq_none] at hfirst
  rw [hid, hclass, Option.bind_some, hfirst]
  rfl

/-- The rule of an element says nothing about how it is selected anew. -/
theorem reselected_reselected (e : Element α) :
    e.reselected.reselected = e.reselected := by
  have hselector : ∀ fallback : String,
      e.classSelector?.getD (e.classSelector?.getD fallback)
        = e.classSelector?.getD fallback := by
    intro fallback
    cases e.classSelector? with
    | none => rfl
    | some selector => rfl
  show ({ e with style := _ } : Element α) = { e with style := _ }
  congr 1
  exact congrArg e.style.withSelector (hselector e.style.selector)

/-- An element that no class selects keeps its selector. -/
theorem reselected_of_none {e : Element α} (h : e.classSelector? = none) :
    e.reselected = e := by
  unfold reselected
  rw [h]
  rfl

end Element

namespace Heuristic

open Layout (Write carryOut)

-- ========================================================= what they do

/-- Select an element by its first class. -/
def select (tree : ElementTree α) (id : ElementId) : ElementTree α :=
  tree.modify id (·.reselected)

/-- Selecting elements one after the other. -/
def selectAll (tree : ElementTree α) (ids : List ElementId) :
    ElementTree α :=
  ids.foldl select tree

/-- The inferences that hide the overflow of elements. -/
def hidings (parents : List ElementId) : List Write :=
  parents.map (⟨·, "overflow", "hidden"⟩)

/-- The parent of an element that floats. -/
def floatParent? (tree : ElementTree α) (id : ElementId) :
    Option ElementId :=
  if (tree.valueOf? id "float").isSome then tree.parentId? id else none

/-- What is met at an element: a class attribute that names no class. -/
def complaints [Layer α] (tree : ElementTree α) (id : ElementId) :
    List Diagnostic :=
  ((tree.get? id).filter (·.hasBlankClass)).toList.map fun e =>
    { code
      message :=
        (Fault.heuristic "class-selector" "class attribute is empty").message
      layer? := some e.layerName }

-- ============================================================ selecting

/-- Choosing a selector changes the rule of an element only. -/
theorem restyled_select (tree : ElementTree α) (id : ElementId) :
    tree.Restyled (select tree id) :=
  ElementTree.restyled_modify Element.restyled_reselected tree id

theorem restyled_selectAll (tree : ElementTree α) (ids : List ElementId) :
    tree.Restyled (selectAll tree ids) := by
  induction ids generalizing tree with
  | nil => exact .refl tree
  | cons id rest ih => exact (restyled_select tree id).trans (ih _)

theorem selectAll_concat (tree : ElementTree α) (ids : List ElementId)
    (id : ElementId) :
    selectAll tree (ids ++ [id]) = select (selectAll tree ids) id :=
  List.foldl_append

/-- Selecting an element more than once is selecting it once. -/
theorem get?_selectAll (tree : ElementTree α) (ids : List ElementId)
    (i : ElementId) :
    (selectAll tree ids).get? i
      = if i ∈ ids then (tree.get? i).map (·.reselected)
        else tree.get? i :=
  ElementTree.get?_foldl_modify Element.reselected_reselected tree ids i

/-- A selector changes no value. -/
theorem valueOf?_select (tree : ElementTree α) (id i : ElementId)
    (k : String) : (select tree id).valueOf? i k = tree.valueOf? i k := by
  unfold ElementTree.valueOf? select
  rw [ElementTree.get?_modify]
  split
  · rw [Option.bind_map]
    rfl
  · rfl

theorem valueOf?_selectAll (tree : ElementTree α) (ids : List ElementId)
    (i : ElementId) (k : String) :
    (selectAll tree ids).valueOf? i k = tree.valueOf? i k := by
  induction ids generalizing tree with
  | nil => rfl
  | cons id rest ih => exact (ih _).trans (valueOf?_select ..)

/-- Inferring and selecting may change places. -/
theorem carryOut_select (tree : ElementTree α) (id : ElementId)
    (writes : List Write) :
    carryOut (select tree id) writes = select (carryOut tree writes) id := by
  induction writes generalizing tree with
  | nil => rfl
  | cons w rest ih =>
      have hstep : (select tree id).modifyStyle w.target
          (·.infer w.property w.value)
          = select (tree.modifyStyle w.target
            (·.infer w.property w.value)) id :=
        ElementTree.modify_comm (fun e =>
          Element.reselected_modifyStyle_infer e w.property w.value) ..
      show carryOut ((select tree id).modifyStyle w.target _) rest = _
      rw [hstep, ih]
      rfl

/-- Writes and selectors do not get in each other's way, so the selectors
can be given at the end. -/
theorem carryOut_selectAll (tree : ElementTree α) (ids : List ElementId)
    (writes : List Write) :
    carryOut (selectAll tree ids) writes
      = selectAll (carryOut tree writes) ids := by
  induction ids generalizing tree with
  | nil => rfl
  | cons id rest ih =>
      show carryOut (selectAll (select tree id) rest) writes = _
      rw [ih, carryOut_select]
      rfl

-- =============================================================== hiding

theorem hidings_append (first later : List ElementId) :
    hidings (first ++ later) = hidings first ++ hidings later :=
  List.map_append

/-- Hiding writes to one property alone. -/
theorem property_of_mem_hidings {parents : List ElementId} {w : Write}
    (h : w ∈ hidings parents) : w.property = "overflow" := by
  obtain ⟨p, -, rfl⟩ := List.mem_map.1 h
  rfl

/-- Hiding overflow more than once is hiding it once. -/
theorem get?_hidings (tree : ElementTree α) (parents : List ElementId)
    (i : ElementId) :
    (carryOut tree (hidings parents)).get? i
      = if i ∈ parents then
          (tree.get? i).map (·.modifyStyle (·.infer "overflow" "hidden"))
        else tree.get? i := by
  unfold carryOut hidings
  rw [List.foldl_map]
  refine ElementTree.get?_foldl_modify
    (f := (·.modifyStyle (·.infer "overflow" "hidden"))) ?_ tree parents i
  intro e
  show ({ e with style := _ } : Element α) = { e with style := _ }
  congr 1
  exact StyleRule.infer_infer ..

/-- Only whose overflow is hidden counts. -/
theorem carryOut_hidings_congr {parents others : List ElementId}
    (h : ∀ p, p ∈ parents ↔ p ∈ others) (tree : ElementTree α) :
    carryOut tree (hidings parents) = carryOut tree (hidings others) := by
  apply ElementTree.ext_get?
  intro i
  rw [get?_hidings, get?_hidings]
  simp only [h]

/-- Hiding overflow leaves the other properties as they were. -/
theorem valueOf?_hidings {k : String} (hk : k ≠ "overflow")
    (tree : ElementTree α) (parents : List ElementId) (i : ElementId) :
    (carryOut tree (hidings parents)).valueOf? i k = tree.valueOf? i k := by
  apply Layout.valueOf?_carryOut_of_ne
  intro w hw
  rw [property_of_mem_hidings hw]
  exact hk

-- ======================================================== at an element

/-- Who floats does not depend on selectors and overflow. -/
theorem floatParent?_congr {t t' : ElementTree α} (h : t.Restyled t')
    {id : ElementId}
    (hfloat : t'.valueOf? id "float" = t.valueOf? id "float") :
    floatParent? t' id = floatParent? t id := by
  unfold floatParent?
  rw [hfloat, h.parentId?]

/-- A floating element hides the overflow of its parent; others change
nothing. -/
theorem change_containFloats (tree : ElementTree α) (id : ElementId) :
    containFloats.change tree id
      = .ok (carryOut tree (hidings (floatParent? tree id).toList)) := by
  simp only [containFloats]
  unfold floatParent? ElementTree.valueOf? ElementTree.parentId?
  cases tree.get? id with
  | none => rfl
  | some e =>
      simp only [Option.bind_some]
      cases e.style.get? "float" with
      | none => rfl
      | some value =>
          cases e.parent? with
          | none => rfl
          | some p => rfl

/-- Nothing changes where no class selects. -/
theorem select_of_none {tree : ElementTree α} {id : ElementId}
    (h : ∀ e, tree.get? id = some e → e.classSelector? = none) :
    select tree id = tree := by
  refine Eq.trans (ElementTree.modify_congr ?_)
    (ElementTree.modify_id tree id)
  intro e hget
  exact Element.reselected_of_none (h e hget)

/-- Selecting an element by its first class fails only on a class that
names none. -/
theorem change_classSelector (tree : ElementTree α) (id : ElementId) :
    classSelector.change tree id
      = if (tree.get? id).any (·.hasBlankClass) = true then
          .error (.heuristic "class-selector" "class attribute is empty")
        else .ok (select tree id) := by
  simp only [classSelector]
  cases hget : tree.get? id with
  | none =>
      rw [select_of_none fun e he => absurd (hget.symm.trans he) nofun]
      rfl
  | some e =>
      have hsame : e.classSelector? = none → select tree id = tree := by
        intro hnone
        apply select_of_none
        intro e' hget'
        rw [hget] at hget'
        cases hget'
        exact hnone
      rw [Option.any_some]
      unfold Element.hasBlankClass
      unfold Element.classSelector? at hsame
      -- an identifier comes before any class
      cases hid : e.identifier? with
      | some identifier =>
          rw [hsame (by rw [hid]; rfl)]
          cases hclass : e.attribute? "class" with
          | none => simp only [hid, hclass]; rfl
          | some classes => simp only [hid, hclass]; rfl
      | none =>
          cases hclass : e.attribute? "class" with
          | none =>
              rw [hsame (by rw [hid, hclass]; rfl)]
              simp only [hid, hclass]
              rfl
          | some classes =>
              cases hfirst : Text.firstWord? classes.toList with
              | none =>
                  simp only [hid, hclass, hfirst]
                  rw [Option.any_some, hfirst]
                  rfl
              | some first =>
                  simp only [hid, hclass, hfirst]
                  rw [Option.any_some, hfirst]
                  show Except.ok _ = Except.ok _
                  congr 1
                  apply ElementTree.modify_congr
                  intro e' hget'
                  rw [hget] at hget'
                  cases hget'
                  have hselector : e.classSelector?
                      = some (e.tag ++ "." ++ String.ofList first) := by
                    unfold Element.classSelector?
                    rw [hid, hclass, Option.bind_some, hfirst]
                    rfl
                  rw [Element.reselected, hselector, Option.getD_some]

variable [Layer α]

/-- The complaints about an element depend on its class and on the name of
its layer. -/
theorem complaints_eq_of_map {β : Type} [Layer β] {t : ElementTree α}
    {t' : ElementTree β} {id : ElementId}
    (h : (t'.get? id).map (fun e => (e.hasBlankClass, e.layerName))
      = (t.get? id).map (fun e => (e.hasBlankClass, e.layerName))) :
    complaints t' id = complaints t id := by
  unfold complaints
  cases hget : t.get? id with
  | none =>
      rw [hget, Option.map_none, Option.map_eq_none_iff] at h
      rw [h]
      rfl
  | some e =>
      rw [hget] at h
      obtain ⟨e', hget', hsame⟩ := Option.map_eq_some_iff.1 h
      obtain ⟨hblank, hname⟩ := Prod.mk.injEq .. ▸ hsame
      rw [hget', Option.filter_some, Option.filter_some, hblank]
      split
      · simp only [Option.toList_some, List.map_cons, List.map_nil, hname]
      · rfl

/-- Complaints are about classes, which restyling does not touch. -/
theorem complaints_congr {t t' : ElementTree α} (h : t.Restyled t')
    (id : ElementId) : complaints t' id = complaints t id :=
  complaints_eq_of_map (h.map_get? (fun _ _ => rfl) id)

/-- No complaint is made about an element without a class. -/
theorem complaints_of_no_class {t : ElementTree α} {id : ElementId}
    {e : Element α} (hget : t.get? id = some e)
    (hclass : e.attribute? "class" = none) : complaints t id = [] := by
  have hblank : e.hasBlankClass = false := by
    unfold Element.hasBlankClass
    rw [hclass, Option.any_none, Bool.and_false]
  unfold complaints
  rw [hget, Option.filter_some, hblank]
  rfl

/-- One heuristic at an element: if it fails, the tree is left as it is and
there is one more diagnostic. -/
def attempt (heuristic : Heuristic α) (tree : ElementTree α)
    (id : ElementId) : ElementTree α × List Diagnostic :=
  match heuristic.change tree id with
  | .ok tree => (tree, [])
  | .error fault =>
    let tree := heuristic.abandoned tree id
    (tree, [{ code, message := fault.message
              layer? := (tree.get? id).map (·.layerName) }])

/-- The chain as a fold that keeps what was reported apart from
the tree. -/
theorem applyAll_eq_foldl (heuristics : List (Heuristic α))
    (tree : ElementTree α) (id : ElementId) :
    applyAll heuristics tree id
      = heuristics.foldl
          (fun reached heuristic =>
            ((attempt heuristic reached.1 id).1,
              reached.2 ++ (attempt heuristic reached.1 id).2))
          (tree, []) := by
  unfold applyAll
  congr 1
  funext reached heuristic
  obtain ⟨now, met⟩ := reached
  unfold attempt
  cases hchange : heuristic.change now id with
  | ok changed => simp only [hchange, List.append_nil]
  | error fault => simp only [hchange]

/-- What is met at each step is put behind what was met before. -/
theorem foldl_met {σ β γ : Type} (step : σ → β → σ × List γ)
    (l : List β) (s : σ) (met : List γ) :
    let next := fun (reached : σ × List γ) x =>
      ((step reached.1 x).1, reached.2 ++ (step reached.1 x).2)
    l.foldl next (s, met)
      = ((l.foldl next (s, [])).1, met ++ (l.foldl next (s, [])).2) := by
  intro next
  induction l generalizing s met with
  | nil => exact congrArg (Prod.mk s) (List.append_nil met).symm
  | cons x rest ih =>
      have hmet := ih (step s x).1 (met ++ (step s x).2)
      have hfresh := ih (step s x).1 (step s x).2
      rw [List.foldl_cons, List.foldl_cons]
      show rest.foldl next ((step s x).1, met ++ (step s x).2)
        = ((rest.foldl next ((step s x).1, [] ++ (step s x).2)).1,
          met ++ (rest.foldl next ((step s x).1, [] ++ (step s x).2)).2)
      rw [List.nil_append, hmet, hfresh, List.append_assoc]

/-- A chain is its first heuristic and then the others. -/
theorem applyAll_cons (heuristic : Heuristic α) (rest : List (Heuristic α))
    (tree : ElementTree α) (id : ElementId) :
    applyAll (heuristic :: rest) tree id
      = ((applyAll rest (attempt heuristic tree id).1 id).1,
        (attempt heuristic tree id).2
          ++ (applyAll rest (attempt heuristic tree id).1 id).2) := by
  simp only [applyAll_eq_foldl, List.foldl_cons, List.nil_append]
  exact foldl_met (fun now heuristic => attempt heuristic now id) rest _ _

/-- The first heuristic gives a selector or complains, and what it
complains about it leaves alone. -/
theorem attempt_classSelector (tree : ElementTree α) (id : ElementId) :
    attempt classSelector tree id
      = (select tree id, complaints tree id) := by
  have hleft : (classSelector : Heuristic α).abandoned tree id = tree := rfl
  unfold attempt complaints
  simp only [hleft]
  rw [change_classSelector]
  cases hget : tree.get? id with
  | none => rfl
  | some e =>
      rw [Option.any_some, Option.filter_some]
      by_cases hblank : e.hasBlankClass = true
      · rw [if_pos hblank, if_pos hblank, select_of_none]
        · rfl
        · intro e' hget'
          rw [hget] at hget'
          cases hget'
          exact Element.classSelector?_of_hasBlankClass hblank
      · rw [if_neg hblank, if_neg hblank]
        rfl

/-- All that the builtin heuristics do at an element. -/
theorem applyAll_builtin (tree : ElementTree α) (id : ElementId) :
    applyAll builtin tree id
      = (carryOut (select tree id) (hidings (floatParent? tree id).toList),
        complaints tree id) := by
  have hfloat : floatParent? (select tree id) id = floatParent? tree id :=
    floatParent?_congr (restyled_select tree id) (valueOf?_select ..)
  have hcontain : attempt containFloats (select tree id) id
      = (carryOut (select tree id) (hidings (floatParent? tree id).toList),
        []) := by
    rw [attempt, change_containFloats, hfloat]
  rw [builtin, applyAll_cons, applyAll_cons, attempt_classSelector, hcontain]
  exact congrArg _ (List.append_nil _)

-- =============================================================== a pass

/-- Run heuristics at several elements, one after another. -/
def runAll (heuristics : List (Heuristic α)) (tree : ElementTree α)
    (ids : List ElementId) : ElementTree α × List Diagnostic :=
  ids.foldl
    (fun (tree, diagnostics) id =>
      let (tree, found) := applyAll heuristics tree id
      (tree, diagnostics ++ found))
    (tree, [])

/-- A pass of the builtin heuristics is known from the tree before it. -/
theorem runAll_builtin (tree : ElementTree α) (ids : List ElementId) :
    runAll builtin tree ids
      = (carryOut (selectAll tree ids)
          (hidings (ids.filterMap (floatParent? tree))),
        ids.flatMap (complaints tree)) := by
  -- the induction is on those still to be visited
  suffices general : ∀ rest before, ids = before ++ rest →
      rest.foldl _ (carryOut (selectAll tree before)
          (hidings (before.filterMap (floatParent? tree))),
        before.flatMap (complaints tree))
      = (carryOut (selectAll tree ids)
          (hidings (ids.filterMap (floatParent? tree))),
        ids.flatMap (complaints tree)) by
    exact general ids [] rfl
  intro rest
  induction rest with
  | nil =>
      intro before hsplit
      rw [hsplit, List.append_nil]
      rfl
  | cons id rest ih =>
      intro before hsplit
      have hrestyled := (restyled_selectAll tree before).trans
        (Layout.restyled_carryOut (selectAll tree before)
          (hidings (before.filterMap (floatParent? tree))))
      -- neither selectors nor hidden overflow change who floats
      have hfloat : floatParent? (carryOut (selectAll tree before)
          (hidings (before.filterMap (floatParent? tree)))) id
          = floatParent? tree id := by
        apply floatParent?_congr hrestyled
        rw [valueOf?_hidings (by decide), valueOf?_selectAll]
      have hlast : [id].filterMap (floatParent? tree)
          = (floatParent? tree id).toList := by
        cases hp : floatParent? tree id with
        | none => exact List.filterMap_cons_none hp
        | some p => exact List.filterMap_cons_some hp
      rw [List.foldl_cons]
      show rest.foldl _ ((applyAll builtin _ id).1,
        before.flatMap (complaints tree) ++ (applyAll builtin _ id).2) = _
      rw [applyAll_builtin, hfloat, complaints_congr hrestyled,
        ← carryOut_select,
        ← Layout.carryOut_append, ← selectAll_concat, ← hlast,
        ← hidings_append, ← List.filterMap_append,
        ← List.flatMap_singleton (complaints tree) id,
        ← List.flatMap_append]
      apply ih
      rw [hsplit, List.append_assoc]
      rfl

end Heuristic

end LayerPage
