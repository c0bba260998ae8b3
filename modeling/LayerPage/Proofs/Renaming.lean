/-
Giving layers other names. A layer is renamed if it is another one down to
the last layer below it, regardless of the names at some positions
(`Layer.IsRenamed`). A name is part of what a reader makes of a layer, so
there is a type of layers for it: in a `Layer.Renamed` the layer at one
position has another name, which may be any text.
-/
import LayerPage.Proofs.Translation

namespace LayerPage

variable {α β : Type} [Layer α] [Layer β]

namespace Layer

/-- Whether a layer is another one, regardless of its name and of what is
below both. -/
structure IsLike (layer : α) (copy : β) : Prop where
  bounds : bounds copy = bounds layer
  kind : kind copy = kind layer
  childCount : childCount copy = childCount layer
  sample? : ∀ x y, sample? copy x y = sample? layer x y

/-- Whether a layer is another one with all that is below it, regardless of
the names at some positions. -/
structure IsRenamed (changed : List Nat → Prop) (root : α) (copy : β) :
    Prop where
  forth : ∀ way layer, LiesAt root way layer →
    ∃ layer', LiesAt copy way layer' ∧ IsLike layer layer'
      ∧ (¬changed way → name layer' = name layer)
  back : ∀ way layer', LiesAt copy way layer' →
    ∃ layer, LiesAt root way layer

namespace IsRenamed

variable {changed : List Nat → Prop} {root : α} {copy : β}

theorem isLike (h : IsRenamed changed root copy) : IsLike root copy := by
  obtain ⟨layer', hat, hlike, -⟩ := h.forth [] root (.here root)
  cases hat
  exact hlike

/-- The root keeps its name if the renaming does not change it. -/
theorem name_eq (h : IsRenamed changed root copy) (hkept : ¬changed []) :
    name copy = name root := by
  obtain ⟨layer', hat, -, hname⟩ := h.forth [] root (.here root)
  cases hat
  exact hname hkept

/-- A copy has the children of the original, under the same indices. -/
theorem lt_childCount (h : IsRenamed changed root copy) {i : Nat}
    (hi : i < childCount root) : i < childCount copy := by
  rw [h.isLike.childCount]
  exact hi

/-- Under a child stands the renaming of that child, which changes what is
changed on a way that begins with its index. -/
theorem of_child? (h : IsRenamed changed root copy) {i : Nat}
    (hi : i < childCount root) {a : α} {b : β}
    (ha : Layer.child? root i = some a) (hb : Layer.child? copy i = some b) :
    IsRenamed (fun way => changed (i :: way)) a b := by
  constructor
  · intro way layer hlies
    obtain ⟨layer', hat, hlike, hname⟩ :=
      h.forth (i :: way) layer (.inside hi ha hlies)
    exact ⟨layer', hat.inChild hb, hlike, hname⟩
  · intro way layer' hlies
    obtain ⟨layer, hat⟩ :=
      h.back (i :: way) layer' (.inside (h.lt_childCount hi) hb hlies)
    exact ⟨layer, hat.inChild ha⟩

end IsRenamed

-- ======================================================== one other name

/-- A layer with another name for the layer at some position, if any. -/
structure Renamed (α : Type) where
  layer : α
  place? : Option (List Nat)
  newName : String

/-- What is left of a position at a child. -/
def Renamed.next (place? : Option (List Nat)) (index : Nat) :
    Option (List Nat) :=
  match place? with
  | some (i :: rest) => if i = index then some rest else none
  | _ => none

instance : Layer (Renamed α) where
  name renamed :=
    if renamed.place? = some [] then renamed.newName else name renamed.layer
  bounds renamed := bounds renamed.layer
  kind renamed := kind renamed.layer
  childCount renamed := childCount renamed.layer
  child? renamed i :=
    (child? renamed.layer i).map
      (⟨·, Renamed.next renamed.place? i, renamed.newName⟩)
  sample? renamed := sample? renamed.layer

/-- Off the way to the renamed place nothing further down is on it. -/
theorem Renamed.foldl_next_none (way : List Nat) :
    way.foldl next none = none := by
  induction way with
  | nil => rfl
  | cons i way ih => exact ih

/-- A way ends at the renamed place only if it is the way to that place. -/
theorem Renamed.foldl_next_iff {place way : List Nat} :
    way.foldl next (some place) = some [] ↔ way = place := by
  induction way generalizing place with
  | nil =>
      constructor
      · intro h
        exact (Option.some.inj h).symm
      · intro h
        rw [← h]
        rfl
  | cons i way ih =>
      rw [List.foldl_cons]
      cases place with
      | nil =>
          have hnone : next (some []) i = none := rfl
          rw [hnone, foldl_next_none]
          constructor
          · intro h
            cases h
          · intro h
            cases h
      | cons j rest =>
          by_cases hij : j = i
          · have hsome : next (some (j :: rest)) i = some rest := if_pos hij
            rw [hsome, ih, hij, List.cons.injEq, and_iff_right rfl]
          · have hnone : next (some (j :: rest)) i = none := if_neg hij
            rw [hnone, foldl_next_none, List.cons.injEq]
            constructor
            · intro h
              cases h
            · intro h
              exact absurd h.1.symm hij

/-- A layer lies in a renamed one where it lies in the layer. -/
theorem liesAt_renamed_iff {root : α} {place? : Option (List Nat)}
    {newName : String} {way : List Nat} {renamed : Renamed α} :
    LiesAt (⟨root, place?, newName⟩ : Renamed α) way renamed
      ↔ ∃ layer, LiesAt root way layer
        ∧ renamed = ⟨layer, way.foldl Renamed.next place?, newName⟩ := by
  constructor
  · intro h
    generalize hroot : (⟨root, place?, newName⟩ : Renamed α) = start at h
    induction h generalizing root place? with
    | here =>
        subst hroot
        exact ⟨root, .here root, rfl⟩
    | inside hindex hchild _ ih =>
        subst hroot
        obtain ⟨child, hat, heq⟩ := Option.map_eq_some_iff.1 hchild
        obtain ⟨layer, hlies, hrenamed⟩ := ih heq
        exact ⟨layer, .inside hindex hat hlies, hrenamed⟩
  · intro h
    obtain ⟨layer, hlies, hrenamed⟩ := h
    subst hrenamed
    induction hlies generalizing place? with
    | here layer => exact .here _
    | inside hindex hchild _ ih =>
        exact .inside hindex (Option.map_eq_some_iff.2 ⟨_, hchild, rfl⟩) ih

/-- Every layer can be renamed at every position. -/
theorem isRenamed_renamed (root : α) (place : List Nat) (newName : String) :
    IsRenamed (· = place) root
      (⟨root, some place, newName⟩ : Renamed α) where
  forth way layer hlies := by
    refine ⟨_, liesAt_renamed_iff.2 ⟨layer, hlies, rfl⟩,
      ⟨rfl, rfl, rfl, fun _ _ => rfl⟩, ?_⟩
    intro hway
    exact if_neg (mt Renamed.foldl_next_iff.1 hway)
  back way renamed hlies := by
    obtain ⟨layer, hat, -⟩ := liesAt_renamed_iff.1 hlies
    exact ⟨layer, hat⟩

/-- A layer that is renamed nowhere is a copy. -/
theorem isCopy_renamed (root : α) (newName : String) :
    IsCopy 0 0 root (⟨root, none, newName⟩ : Renamed α) where
  forth way layer hlies := by
    refine ⟨_, liesAt_renamed_iff.2 ⟨layer, hlies, rfl⟩, ?_⟩
    rw [Renamed.foldl_next_none]
    exact
      { name := rfl
        bounds := ⟨(Int.add_zero _).symm, (Int.add_zero _).symm, rfl, rfl⟩
        kind := rfl
        childCount := rfl
        sample? := fun _ _ => rfl }
  back way renamed hlies := by
    obtain ⟨layer, hat, -⟩ := liesAt_renamed_iff.1 hlies
    exact ⟨layer, hat⟩

end Layer

-- ============================================================= documents

/-- Whether a document is another one, regardless of the name of the layer
at one position of the body. -/
structure LayerDocument.IsRenamed (place : List Nat)
    (source : LayerDocument α) (copy : LayerDocument β) : Prop where
  body : Option.Rel (Layer.IsRenamed (· = place)) (source.layer? 0)
    (copy.layer? 0)
  others : ∀ i, Option.Rel (Layer.IsCopy 0 0) (source.layer? (i + 1))
    (copy.layer? (i + 1))

/-- The document with another name for the layer at a position of the
body. -/
def LayerDocument.rename (place : List Nat) (newName : String)
    (source : LayerDocument α) : LayerDocument (Layer.Renamed α) where
  layer?
    | 0 => (source.layer? 0).map (⟨·, some place, newName⟩)
    | i + 1 => (source.layer? (i + 1)).map (⟨·, none, newName⟩)

/-- A document with one name replaced is a renaming of the document, at one
place. -/
theorem LayerDocument.isRenamed_rename (place : List Nat) (newName : String)
    (source : LayerDocument α) :
    source.IsRenamed place (source.rename place newName) := by
  constructor
  · show Option.Rel _ _ ((source.layer? 0).map _)
    cases source.layer? 0 with
    | none => exact .none
    | some body => exact .some (Layer.isRenamed_renamed body place newName)
  · intro i
    show Option.Rel _ _ ((source.layer? (i + 1)).map _)
    cases source.layer? (i + 1) with
    | none => exact .none
    | some layer => exact .some (Layer.isCopy_renamed layer newName)

end LayerPage
