/-
Layers by their positions. `Forest.placed` lists the labels of a forest
with the ways to them, depth first. That is the order in which elements
are made, so the place of a layer in this list is the number of its
element; the list has every position that a layer lies at
(`mem_placed_iff`), and none of them twice (`nodup_placed`).
-/
import LayerPage.Proofs.Build.Offence

namespace LayerPage

variable {β γ : Type}

namespace Forest

/-- The labels of a forest whose first root has an index, depth first,
each with the way to it. -/
def placed : Nat → Forest β → List (List Nat × β)
  | _, .nil => []
  | index, .cons label below rest =>
    ([index], label)
      :: ((below.placed 0).map (fun place => (index :: place.1, place.2))
        ++ rest.placed (index + 1))

/-- A root and the labels below it, depth first, each with the way to
it. -/
def placedUnder (root : β) (below : Forest β) : List (List Nat × β) :=
  ([], root) :: below.placed 0

/-- The labels of the places are those of the forest, in its order. -/
theorem map_snd_placed (index : Nat) (forest : Forest β) :
    (forest.placed index).map Prod.snd = forest.labels := by
  induction forest generalizing index with
  | nil => rfl
  | cons label below rest ihBelow ihRest =>
      have hbelow : ((below.placed 0).map
          (fun place => (index :: place.1, place.2))).map Prod.snd
          = below.labels := by
        rw [List.map_map, ← ihBelow 0]
        rfl
      rw [placed, List.map_cons, List.map_append, hbelow, ihRest, labels]

/-- Changing the labels of a forest leaves their places alone. -/
theorem placed_map (f : β → γ) (index : Nat) (forest : Forest β) :
    (forest.map f).placed index
      = (forest.placed index).map (Prod.map id f) := by
  induction forest generalizing index with
  | nil => rfl
  | cons label below rest ihBelow ihRest =>
      rw [map, placed, placed, ihBelow, ihRest, List.map_cons,
        List.map_append, List.map_map, List.map_map]
      rfl

theorem placedUnder_map (f : β → γ) (root : β) (below : Forest β) :
    placedUnder (f root) (below.map f)
      = (placedUnder root below).map (Prod.map id f) := by
  rw [placedUnder, placedUnder, placed_map]
  rfl

theorem map_snd_placedUnder (root : β) (below : Forest β) :
    (placedUnder root below).map Prod.snd = root :: below.labels := by
  rw [placedUnder, List.map_cons, map_snd_placed]

/-- A way into a forest begins with the index of a root. -/
theorem exists_of_mem_placed {index : Nat} {forest : Forest β}
    {way : List Nat} (h : way ∈ (forest.placed index).map Prod.fst) :
    ∃ i rest, way = i :: rest ∧ index ≤ i := by
  induction forest generalizing index with
  | nil => cases h
  | cons label below rest _ ihRest =>
      rw [placed, List.map_cons, List.map_append] at h
      rcases List.mem_cons.1 h with hroot | h
      · exact ⟨index, [], hroot, Nat.le_refl _⟩
      · rcases List.mem_append.1 h with hbelow | hrest
        · rw [List.map_map] at hbelow
          obtain ⟨place, -, hway⟩ := List.mem_map.1 hbelow
          exact ⟨index, place.1, hway.symm, Nat.le_refl _⟩
        · obtain ⟨i, further, hway, hle⟩ := ihRest hrest
          exact ⟨i, further, hway, by omega⟩

/-- No two labels of a forest have the same place. -/
theorem nodup_placed (index : Nat) (forest : Forest β) :
    ((forest.placed index).map Prod.fst).Nodup := by
  induction forest generalizing index with
  | nil => exact .nil
  | cons label below rest ihBelow ihRest =>
      have hbelow : ((below.placed 0).map
          (fun place => (index :: place.1, place.2))).map Prod.fst
          = ((below.placed 0).map Prod.fst).map (index :: ·) := by
        rw [List.map_map, List.map_map]
        rfl
      rw [placed, List.map_cons, List.map_append, hbelow, List.nodup_cons,
        List.nodup_append]
      refine ⟨?_, ?_, ihRest _, ?_⟩
      · intro hmem
        rcases List.mem_append.1 hmem with hmem | hmem
        · obtain ⟨way, hway, heq⟩ := List.mem_map.1 hmem
          obtain ⟨i, further, hcons, -⟩ := exists_of_mem_placed hway
          rw [hcons] at heq
          cases heq
        · obtain ⟨i, further, heq, hle⟩ := exists_of_mem_placed hmem
          cases heq
          omega
      · exact List.Pairwise.map _
          (fun a b hne heq => hne (List.cons.inj heq).2) (ihBelow 0)
      · intro a ha b hb heq
        obtain ⟨way, -, hway⟩ := List.mem_map.1 ha
        obtain ⟨i, further, hother, hle⟩ := exists_of_mem_placed hb
        rw [← hway, hother] at heq
        cases heq
        omega

theorem nodup_placedUnder (root : β) (below : Forest β) :
    ((placedUnder root below).map Prod.fst).Nodup := by
  rw [placedUnder, List.map_cons, List.nodup_cons]
  refine ⟨?_, nodup_placed 0 below⟩
  intro hmem
  obtain ⟨i, further, heq, -⟩ := exists_of_mem_placed hmem
  cases heq

end Forest

-- ============================================================= positions

variable {α : Type} [Layer α]

open Layer (LiesAt)

/-- What is listed under a layer lies where it is listed, and all that
lies there is listed, if this holds below the layer. -/
private theorem mem_placedUnder_of {child : α} {below : Forest α}
    (h : ∀ i further layer, (i :: further, layer) ∈ below.placed 0
      ↔ LiesAt child (i :: further) layer) {way : List Nat} {layer : α} :
    (way, layer) ∈ Forest.placedUnder child below
      ↔ LiesAt child way layer := by
  rw [Forest.placedUnder, List.mem_cons]
  cases way with
  | nil =>
      constructor
      · intro hmem
        rcases hmem with heq | hmem
        · cases heq
          exact .here child
        · obtain ⟨i, further, heq, -⟩ :=
            Forest.exists_of_mem_placed (List.mem_map_of_mem hmem)
          cases heq
      · intro hlies
        cases hlies
        exact Or.inl rfl
  | cons i further =>
      rw [h, or_iff_right]
      intro heq
      cases heq

/-- The same from a child of a layer on. -/
theorem Forest.ListsFrom.mem_placed_iff {folder : α} {index : Nat}
    {forest : Forest α} (h : forest.ListsFrom folder index) {i : Nat}
    {further : List Nat} {layer : α} :
    (i :: further, layer) ∈ forest.placed index
      ↔ index ≤ i ∧ LiesAt folder (i :: further) layer := by
  induction forest generalizing folder index i further layer with
  | nil =>
      constructor
      · intro hmem
        cases hmem
      · intro hlies
        obtain ⟨hle, hlies⟩ := hlies
        cases hlies with
        | inside hlt _ _ =>
            have hend : index = Layer.childCount folder := h
            omega
  | cons child below rest ihBelow ihRest =>
      obtain ⟨hchild, hbelow, hrest⟩ := h
      have hlt : index < Layer.childCount folder := by
        have hlength := hrest.length
        omega
      have hunder : ∀ {way : List Nat} {layer : α},
          (way, layer) ∈ placedUnder child below ↔ LiesAt child way layer := by
        apply mem_placedUnder_of
        intro i further layer
        rw [ihBelow hbelow]
        exact and_iff_right (Nat.zero_le i)
      have hplaced : (cons child below rest).placed index
          = (placedUnder child below).map
              (fun place => (index :: place.1, place.2))
            ++ rest.placed (index + 1) := rfl
      rw [hplaced, List.mem_append, ihRest hrest]
      constructor
      · intro hmem
        rcases hmem with hmem | ⟨hle, hlies⟩
        · obtain ⟨place, hplace, heq⟩ := List.mem_map.1 hmem
          cases heq
          exact ⟨Nat.le_refl _, .inside hlt hchild (hunder.1 hplace)⟩
        · exact ⟨by omega, hlies⟩
      · intro hlies
        obtain ⟨hle, hlies⟩ := hlies
        -- the way begins at this child, or at a later one
        rcases Nat.eq_or_lt_of_le hle with heq | hlater
        · subst heq
          exact Or.inl (List.mem_map.2
            ⟨(further, layer), hunder.2 (hlies.inChild hchild), rfl⟩)
        · exact Or.inr ⟨hlater, hlies⟩

/-- The layers under a root are listed with their positions. -/
theorem Forest.IsBelow.mem_placedUnder_iff {root : α} {below : Forest α}
    (h : below.IsBelow root) {way : List Nat} {layer : α} :
    (way, layer) ∈ placedUnder root below ↔ LiesAt root way layer := by
  apply mem_placedUnder_of
  intro i further layer
  rw [ListsFrom.mem_placed_iff h]
  exact and_iff_right (Nat.zero_le i)

/-- A layer that lies somewhere has a number. -/
theorem Forest.IsBelow.exists_number {root : α} {below : Forest α}
    (h : below.IsBelow root) {way : List Nat} {layer : α}
    (hlies : LiesAt root way layer) :
    ∃ number : Nat,
      (placedUnder root below)[number]? = some (way, layer) :=
  List.mem_iff_getElem?.1 (h.mem_placedUnder_iff.2 hlies)

/-- A position has one number. -/
theorem Forest.eq_of_placedUnder {root : β} {below : Forest β}
    {number other : Nat} {way : List Nat} {label label' : β}
    (h : (placedUnder root below)[number]? = some (way, label))
    (hother : (placedUnder root below)[other]? = some (way, label')) :
    number = other := by
  have hfirst : ((placedUnder root below).map Prod.fst)[number]?
      = some way := by
    rw [List.getElem?_map, h]
    rfl
  have hsecond : ((placedUnder root below).map Prod.fst)[other]?
      = some way := by
    rw [List.getElem?_map, hother]
    rfl
  have hlt := (List.getElem?_eq_some_iff.1 hfirst).1
  exact (List.getElem?_inj hlt (nodup_placedUnder root below)).1
    (hfirst.trans hsecond.symm)

end LayerPage
