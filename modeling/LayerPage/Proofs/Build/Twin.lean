/-
Building from layers of which some have lost their names. A copy of a
layer loses names if it is the same layer down to the last one below it,
except that at some positions a plain name has become one that cannot be
read (`Layer.LosesNames`). A layer side by side with such a copy is a
layer again (`Layer.Twin`), named like the original; what is built from
the copy is what is built from the twin with the elements effaced whose
names are lost (`grow_effacedAt`).

The induction is the one over the forest of twins below a layer. It needs
to know of each twin only its number and whether its name is lost: where
names are lost nothing is merged, so that the elements that are effaced
neither absorb nor are absorbed.
-/
import LayerPage.Proofs.Build.Pins
import LayerPage.Proofs.Build.Place
import LayerPage.Proofs.Element.Effaced
import LayerPage.Proofs.Renaming

namespace LayerPage

variable {α β : Type} [Layer α] [Layer β]

open Reference (Contracts)

namespace Layer

-- ================================================================ copies

/-- Whether the copy of a layer has lost names at some positions: where
they are lost, the name of a layer without entries, no merge pair with
those around it, has become one that cannot be read. -/
structure LosesNames (lost : List Nat → Prop) (root : α) (copy : β) : Prop
    extends IsRenamed lost root copy where
  plain : ∀ way layer, LiesAt root way layer → lost way →
    ∃ read, LayerName.parse (name layer) = .ok read ∧ read.entries = ∅
  alone : ∀ way folder i child, LiesAt root way folder →
    i < childCount folder → child? folder i = some child →
    lost way ∨ lost (way ++ [i]) → ¬Contracts folder child
  broken : ∀ way layer', LiesAt copy way layer' → lost way →
    ∃ fault, LayerName.parse (name layer') = .error fault

namespace LosesNames

variable {lost : List Nat → Prop} {root : α} {copy : β}

/-- A child of the copy has lost the names that are lost below it. -/
theorem of_child? (h : LosesNames lost root copy) {i : Nat}
    (hi : i < childCount root) {a : α} {b : β}
    (ha : Layer.child? root i = some a) (hb : Layer.child? copy i = some b) :
    LosesNames (fun way => lost (i :: way)) a b where
  toIsRenamed := h.toIsRenamed.of_child? hi ha hb
  plain way layer hlies := h.plain (i :: way) layer (.inside hi ha hlies)
  alone way folder j child hlies :=
    h.alone (i :: way) folder j child (.inside hi ha hlies)
  broken way layer' hlies :=
    h.broken (i :: way) layer' (.inside (h.lt_childCount hi) hb hlies)

/-- The children of the copy are those of the layer with names lost. -/
theorem child? (h : LosesNames lost root copy) {i : Nat}
    (hi : i < childCount root) :
    Option.Rel (LosesNames fun way => lost (i :: way))
      (Layer.child? root i) (Layer.child? copy i) := by
  refine rel_child? hi (h.lt_childCount hi) ?_ (h.back [i])
    fun a b => h.of_child? hi
  intro a hat
  obtain ⟨b, hcopy, -⟩ := h.forth [i] a hat
  exact ⟨b, hcopy⟩

end LosesNames

-- ================================================================= twins

/-- A layer side by side with a copy that has lost names. -/
structure Twin (α β : Type) [Layer α] [Layer β] where
  lost : List Nat → Prop
  original : α
  copy : β
  losesNames : LosesNames lost original copy

namespace Twin

/-- What is there on both sides, side by side. -/
def ofRel (lost : List Nat → Prop) : (a? : Option α) → (b? : Option β) →
    Option.Rel (LosesNames lost) a? b? → Option (Twin α β)
  | some a, some b, h => some ⟨lost, a, b, match h with | .some h => h⟩
  | none, _, _ => none
  | some _, none, _ => none

variable {lost : List Nat → Prop}

theorem map_original_ofRel {a? : Option α} {b? : Option β}
    (h : Option.Rel (LosesNames lost) a? b?) :
    (ofRel lost a? b? h).map (·.original) = a? := by
  cases h with
  | none => rfl
  | some _ => rfl

theorem map_copy_ofRel {a? : Option α} {b? : Option β}
    (h : Option.Rel (LosesNames lost) a? b?) :
    (ofRel lost a? b? h).map (·.copy) = b? := by
  cases h with
  | none => rfl
  | some _ => rfl

/-- The twin of two related layers has lost the names by which they are
related. -/
theorem lost_of_mem_ofRel {a? : Option α} {b? : Option β}
    (h : Option.Rel (LosesNames lost) a? b?) {twin : Twin α β}
    (htwin : ofRel lost a? b? h = some twin) : twin.lost = lost := by
  cases h with
  | none => cases htwin
  | some _ =>
      cases htwin
      rfl

/-- A twin is a layer like its original. -/
instance : Layer (Twin α β) where
  name twin := name twin.original
  bounds twin := bounds twin.original
  kind twin := kind twin.original
  childCount twin := childCount twin.original
  child? twin i :=
    if hi : i < childCount twin.original then
      ofRel _ _ _ (twin.losesNames.child? hi)
    else none
  sample? twin := sample? twin.original

/-- A child of twins is the pair of their children. -/
theorem child?_of_lt {twin : Twin α β} {i : Nat}
    (hi : i < childCount twin.original) :
    Layer.child? twin i = ofRel _ _ _ (twin.losesNames.child? hi) :=
  dif_pos hi

/-- Whether the copy has lost its own name. -/
def IsLost (twin : Twin α β) : Prop :=
  twin.lost []

/-- Which names are lost below a child is told by the ways that begin with
it. -/
theorem lost_of_child? {twin child : Twin α β} {i : Nat}
    (hi : i < childCount twin.original)
    (hchild : Layer.child? twin i = some child) :
    child.lost = fun way => twin.lost (i :: way) := by
  rw [child?_of_lt hi] at hchild
  exact lost_of_mem_ofRel _ hchild

/-- A layer has lost its name if the way to it says so. -/
theorem isLost_iff {root twin : Twin α β} {way : List Nat}
    (h : LiesAt root way twin) : twin.IsLost ↔ root.lost way := by
  induction h with
  | here => exact Iff.rfl
  | inside hindex hchild _ ih =>
      rw [ih, lost_of_child? hindex hchild]

/-- The first of twins has all that can be read of the pair. -/
theorem moves_original : Moves 0 0 (Twin.original : Twin α β → α) where
  name _ := rfl
  kind _ := rfl
  childCount _ := rfl
  child? twin i hi := by
    rw [child?_of_lt hi, map_original_ofRel]
  bounds _ := ⟨(Int.add_zero _).symm, (Int.add_zero _).symm, rfl, rfl⟩
  sample? _ _ _ := rfl

/-- The second one of twins has all that can be read of the pair but the
name. -/
theorem displaces_copy : Displaces 0 0 (Twin.copy : Twin α β → β) where
  kind twin := twin.losesNames.isLike.kind
  bounds twin := by
    rw [twin.losesNames.isLike.bounds]
    exact ⟨(Int.add_zero _).symm, (Int.add_zero _).symm, rfl, rfl⟩
  sample? twin := twin.losesNames.isLike.sample?

/-- The children of the copy are the copies of the children. -/
theorem child?_copy (twin : Twin α β) {i : Nat}
    (hi : i < childCount twin) :
    Layer.child? twin.copy i = (Layer.child? twin i).map (·.copy) := by
  rw [child?_of_lt hi, map_copy_ofRel]

/-- Below the original are the originals of what is below a twin. -/
theorem isBelow_original {twin : Twin α β} {below : Forest (Twin α β)}
    (h : below.IsBelow twin) :
    (below.map Twin.original).IsBelow twin.original :=
  h.map moves_original.childCount moves_original.child?

/-- What is below the pair is below its second one, once it is copied. -/
theorem isBelow_copy {twin : Twin α β} {below : Forest (Twin α β)}
    (h : below.IsBelow twin) : (below.map Twin.copy).IsBelow twin.copy :=
  h.map (fun twin => twin.losesNames.isLike.childCount)
    fun twin _ hi => twin.child?_copy hi

end Twin

end Layer

-- ================================================================= names

namespace Construction

open Layer (Twin)

variable {twin folder child : Twin α β} {k : ElementId}

/-- Whether a twin and the layers below it have lost their names where the
number is a given one, and nowhere else. -/
def NumbersLost (twin : Twin α β) (below : Forest (Twin α β))
    (k : ElementId) : Prop :=
  ∀ number inner, (twin :: below.labels)[number]? = some inner →
    (inner.IsLost ↔ number = k.index)

/-- A name that is lost at one position is lost at the number of that. -/
theorem numbersLost_of_placedUnder {below : Forest (Twin α β)}
    (hbelow : below.IsBelow twin) {place : List Nat} {layer : Twin α β}
    (hlost : ∀ way, twin.lost way ↔ way = place)
    (hplace : (Forest.placedUnder twin below)[k.index]?
      = some (place, layer)) : NumbersLost twin below k := by
  intro number inner hinner
  rw [← Forest.map_snd_placedUnder, List.getElem?_map,
    Option.map_eq_some_iff] at hinner
  obtain ⟨⟨way, found⟩, hat, heq⟩ := hinner
  obtain rfl : found = inner := heq
  have hlies := hbelow.mem_placedUnder_iff.1 (List.mem_of_getElem? hat)
  rw [Twin.isLost_iff hlies, hlost]
  constructor
  · intro hway
    rw [hway] at hat
    exact Forest.eq_of_placedUnder hat hplace
  · intro hnumber
    rw [hnumber, hplace] at hat
    cases hat
    rfl

/-- No name is lost before that number or after it. -/
theorem NumbersLost.exists_split {below : Forest (Twin α β)}
    (h : NumbersLost twin below k) {layer : Twin α β}
    (hlayer : (twin :: below.labels)[k.index]? = some layer) :
    ∃ before after, twin :: below.labels = before ++ layer :: after
      ∧ (∀ inner ∈ before, ¬inner.IsLost)
      ∧ ∀ inner ∈ after, ¬inner.IsLost := by
  have hlost : layer.IsLost := (h k.index layer hlayer).2 rfl
  obtain ⟨before, after, hsplit⟩ :=
    List.append_of_mem (List.mem_of_getElem? hlayer)
  unfold NumbersLost at h
  rw [hsplit] at h
  have hat : (before ++ layer :: after)[before.length]? = some layer := by
    rw [List.getElem?_append_right (Nat.le_refl _), Nat.sub_self]
    rfl
  have hplace : before.length = k.index :=
    (h before.length layer hat).1 hlost
  refine ⟨before, after, hsplit, ?_, ?_⟩
  · intro inner hinner
    obtain ⟨n, hn, hget⟩ := List.getElem_of_mem hinner
    rw [h n inner ?_]
    · omega
    · rw [List.getElem?_append_left hn, List.getElem?_eq_getElem hn, hget]
  · intro inner hinner
    obtain ⟨n, hn, hget⟩ := List.getElem_of_mem hinner
    rw [h (before.length + (n + 1)) inner ?_]
    · omega
    · rw [List.getElem?_append_right (Nat.le_add_right ..),
        Nat.add_sub_cancel_left, List.getElem?_cons_succ,
        List.getElem?_eq_getElem hn, hget]

/-- A name that is not lost is read in the same way from both. -/
theorem readName_copy (h : ¬twin.IsLost) :
    readName twin.copy = readName twin := by
  have hname : Layer.name twin.copy = Layer.name twin :=
    twin.losesNames.name_eq h
  unfold readName
  rw [hname]

/-- A lost name is read as the blank one. -/
theorem readName_copy_of_lost (h : twin.IsLost) :
    (readName twin.copy).1 = .blank := by
  obtain ⟨fault, hparse⟩ :=
    twin.losesNames.broken [] twin.copy (.here _) h
  unfold readName
  rw [hparse]

/-- A name is only lost where it had no entries. -/
theorem entries_of_lost (h : twin.IsLost) :
    (readName twin).1.entries = ∅ := by
  obtain ⟨name, hparse, hentries⟩ :=
    twin.losesNames.plain [] twin.original (.here _) h
  have hparse' : LayerName.parse (Layer.name twin) = .ok name := hparse
  unfold readName
  rw [hparse']
  exact hentries

omit [Layer α] in
/-- Layers without an identifier are no merge pair. -/
theorem absorbs_of_blank {identifier childIdentifier : String}
    (h : identifier = "" ∨ childIdentifier = "") (layer inner : β) :
    absorbs layer identifier inner childIdentifier = false := by
  rw [Bool.eq_false_iff]
  intro hpair
  simp only [absorbs, Bool.and_eq_true, Bool.not_eq_true',
    beq_iff_eq] at hpair
  obtain ⟨⟨-, hnonempty⟩, hsame⟩ := hpair
  have hblank : identifier = "" := by
    rcases h with h | h
    · exact h
    · exact hsame.trans h
  rw [hblank] at hnonempty
  cases hnonempty

/-- Where a name is lost nothing was merged. -/
theorem mergePair_of_lost {i : Nat} (hi : i < Layer.childCount folder)
    (hchild : Layer.child? folder i = some child)
    (h : folder.IsLost ∨ child.IsLost) : mergePair folder child = false := by
  have horiginal : Layer.child? folder.original i
      = some child.original := by
    have hmap := Twin.moves_original.child? folder i hi
    rw [hchild] at hmap
    exact hmap
  have hlost : folder.lost [] ∨ folder.lost ([] ++ [i]) := by
    rw [Twin.IsLost, Twin.IsLost, Twin.lost_of_child? hi hchild] at h
    exact h
  have halone := folder.losesNames.alone [] folder.original i child.original
    (.here _) hi horiginal hlost
  rw [Bool.eq_false_iff]
  intro hpair
  exact halone (Reference.mergePair_iff.1 hpair)

/-- Whether a folder absorbs its child does not change: a lost name belongs
to neither of two layers that merge. -/
theorem mergePair_copy {i : Nat} (hi : i < Layer.childCount folder)
    (hchild : Layer.child? folder i = some child) :
    mergePair folder.copy child.copy = mergePair folder child := by
  by_cases hlost : folder.IsLost ∨ child.IsLost
  · rw [mergePair_of_lost hi hchild hlost]
    unfold mergePair absorbs identifierOf
    rcases hlost with hfolder | hchild
    · rw [readName_copy_of_lost hfolder]
      exact absorbs_of_blank (Or.inl rfl) _ _
    · rw [readName_copy_of_lost hchild]
      exact absorbs_of_blank (Or.inr rfl) _ _
  · rw [not_or] at hlost
    unfold mergePair absorbs identifierOf
    rw [readName_copy hlost.1, readName_copy hlost.2,
      Twin.displaces_copy.kind, Twin.displaces_copy.kind]

/-- A layer that keeps its name makes the same element. -/
theorem own_copy (h : ¬twin.IsLost) :
    own Metadata.builtin twin.copy
      = (own Metadata.builtin twin).map Twin.copy := by
  unfold own
  rw [readName_copy h, create_map, Metadata.apply_builtin,
    Metadata.apply_builtin]
  rfl

/-- The element of a layer that is to lose its name has tag and identifier,
and nothing from entries. -/
theorem own_of_lost (h : twin.IsLost) :
    own Metadata.builtin twin
      = .create (readName twin).1.tag (readName twin).1.identifier twin := by
  unfold own
  rw [entries_of_lost h]
  rfl

/-- The element of a copy whose name is lost has lost it too. -/
theorem own_copy_of_lost (h : twin.IsLost) :
    own Metadata.builtin twin.copy
      = ((own Metadata.builtin twin).map Twin.copy).effaced := by
  rw [own_of_lost h, ← create_map, Element.effaced_create]
  unfold own
  rw [readName_copy_of_lost h]
  rfl

-- =============================================================== building

/-- Unfolding the children goes the same way in both. The induction is on
the number of children that are left, from an index on. -/
theorem unfoldChildren_copy {below : Twin α β → Except Fault (Forest (Twin α β))}
    {below' : β → Except Fault (Forest β)}
    (hbelow : ∀ child inner, below child = .ok inner →
      below' child.copy = .ok (inner.map Twin.copy))
    (twin : Twin α β) {count index : Nat}
    (hcount : index + count = Layer.childCount twin)
    {forest : Forest (Twin α β)}
    (h : unfoldChildren below twin count index = .ok forest) :
    unfoldChildren below' twin.copy count index
      = .ok (forest.map Twin.copy) := by
  induction count generalizing index forest with
  | zero =>
      cases h
      rfl
  | succ count ih =>
      rw [unfoldChildren] at h
      rw [unfoldChildren, twin.child?_copy (by omega)]
      cases hchild : Layer.child? twin index with
      | none =>
          rw [hchild] at h
          cases h
      | some child =>
          rw [hchild] at h
          simp only [Option.map_some] at h ⊢
          cases hinner : below child with
          | error fault =>
              rw [hinner] at h
              cases h
          | ok inner =>
              rw [hinner] at h
              rw [hbelow child inner hinner]
              simp only at h ⊢
              cases hrest : unfoldChildren below twin count (index + 1) with
              | error fault =>
                  rw [hrest] at h
                  cases h
              | ok rest =>
                  rw [hrest] at h
                  cases h
                  rw [ih (by omega) hrest]
                  rfl

/-- Below the copy are the copies of what is below. -/
theorem unfold_copy {levels : Nat} {twin : Twin α β}
    {forest : Forest (Twin α β)} (h : unfold levels twin = .ok forest) :
    unfold levels twin.copy = .ok (forest.map Twin.copy) := by
  induction levels generalizing twin forest with
  | zero => cases h
  | succ levels ih =>
      rw [unfold] at h ⊢
      rw [twin.losesNames.isLike.childCount]
      exact unfoldChildren_copy (fun child inner => ih) twin
        (Nat.zero_add _) h

/-- Whether a tree built from copies is the tree built from the twins with
one element effaced. -/
def EffacedAt (k : ElementId) (c : Construction (Twin α β))
    (c' : Construction β) : Prop :=
  c'.tree = (c.tree.map Twin.copy).effaceAt k

namespace EffacedAt

variable {c : Construction (Twin α β)} {c' : Construction β}

theorem size (h : EffacedAt k c c') : c'.tree.size = c.tree.size := by
  rw [h, ElementTree.size_effaceAt, ElementTree.size_map]

/-- The element of a layer is effaced as it is added, if it is the one that
lost its name. -/
theorem addOwn (h : EffacedAt k c c') {twin : Twin α β}
    (hlost : twin.IsLost ↔ c.tree.size = k.index) :
    EffacedAt k (addOwn Metadata.builtin twin c).1
      (Construction.addOwn Metadata.builtin twin.copy c').1 := by
  have hown : own Metadata.builtin twin.copy
      = if (c.tree.map Twin.copy).size = k.index then
          ((own Metadata.builtin twin).map Twin.copy).effaced
        else (own Metadata.builtin twin).map Twin.copy := by
    rw [ElementTree.size_map]
    by_cases hsize : c.tree.size = k.index
    · rw [if_pos hsize, own_copy_of_lost (hlost.2 hsize)]
    · rw [if_neg hsize, own_copy (mt hlost.1 hsize)]
  unfold EffacedAt at h ⊢
  rw [addOwn_tree, addOwn_tree, h, hown, ← ElementTree.effaceAt_insert,
    ElementTree.insert_map]

theorem link (h : EffacedAt k c c') (id : ElementId) :
    EffacedAt k (link id c) (link id c') := by
  unfold EffacedAt at h ⊢
  unfold Construction.link
  simp only [h]
  rw [ElementTree.map_linkSiblings, ElementTree.effaceAt_linkSiblings]

/-- Adopting a child keeps the two constructions in step. Where the name of
either is lost, nothing is merged. -/
theorem adopt (h : EffacedAt k c c') {folder child : Twin α β} {i : Nat}
    (hi : i < Layer.childCount folder)
    (hchild : Layer.child? folder i = some child) {id childId : ElementId}
    (hfolder : folder.IsLost ↔ id = k) (hlost : child.IsLost ↔ childId = k) :
    EffacedAt k (adopt folder child id childId c)
      (adopt folder.copy child.copy id childId c') := by
  have hpair := mergePair_copy hi hchild
  unfold EffacedAt at h ⊢
  unfold Construction.adopt
  simp only [h, hpair]
  cases hmerge : mergePair folder child with
  | false =>
      simp only [Bool.false_eq_true, if_false]
      rw [ElementTree.map_appendChild, ElementTree.effaceAt_appendChild]
  | true =>
      have hkept : id ≠ k ∧ childId ≠ k := by
        rw [← not_or, ← hfolder, ← hlost]
        intro hlost
        rw [mergePair_of_lost hi hchild hlost] at hmerge
        cases hmerge
      simp only [if_true]
      rw [ElementTree.map_merge, ElementTree.effaceAt_merge hkept.1 hkept.2,
        ElementTree.map_appendChild, ElementTree.effaceAt_appendChild]

/-- Planting is growing what is below, and linking it. -/
theorem plant (h : EffacedAt k c c') {twin : Twin α β}
    {below : Forest (Twin α β)}
    (hgrow : EffacedAt k
      (grow Metadata.builtin twin ⟨c.tree.size⟩ below
        (Construction.addOwn Metadata.builtin twin c).1)
      (grow Metadata.builtin twin.copy ⟨c.tree.size⟩ (below.map Twin.copy)
        (Construction.addOwn Metadata.builtin twin.copy c').1)) :
    EffacedAt k (plant Metadata.builtin twin below c).1
      (plant Metadata.builtin twin.copy (below.map Twin.copy) c').1 := by
  have hid : (Construction.addOwn Metadata.builtin twin.copy c').2
      = ⟨c.tree.size⟩ := congrArg ElementId.mk h.size
  unfold Construction.plant
  simp only [hid]
  exact hgrow.link ⟨c.tree.size⟩

end EffacedAt

theorem size_addOwn {γ : Type} [Layer γ] (registry : MetadataRegistry γ)
    (layer : γ) (c : Construction γ) :
    (addOwn registry layer c).1.tree.size = c.tree.size + 1 := by
  rw [addOwn_tree, ElementTree.size_insert]

theorem size_adopt {γ : Type} [Layer γ] (folder child : γ)
    (id childId : ElementId) (c : Construction γ) :
    (adopt folder child id childId c).tree.size = c.tree.size := by
  unfold adopt
  simp only
  split
  · rw [ElementTree.size_merge, ElementTree.size_appendChild]
  · rw [ElementTree.size_appendChild]

/-- Growing a forest of twins, and growing their copies: the same tree but
for the element with the number of a name that is lost. -/
theorem grow_effacedAt {folder : Twin α β} {id : ElementId}
    {forest : Forest (Twin α β)} {index : Nat}
    (hforest : forest.ListsFrom folder index)
    {c : Construction (Twin α β)} {c' : Construction β}
    (h : EffacedAt k c c') (hfolder : folder.IsLost ↔ id = k)
    (hnumber : ∀ number twin, forest.labels[number]? = some twin →
      (twin.IsLost ↔ c.tree.size + number = k.index)) :
    EffacedAt k (grow Metadata.builtin folder id forest c)
      (grow Metadata.builtin folder.copy id (forest.map Twin.copy) c') := by
  induction forest generalizing folder id index c c' with
  | nil => exact h
  | cons child below rest ihBelow ihRest =>
      obtain ⟨hchild, hbelow, hrest⟩ := hforest
      have hindex : index < Layer.childCount folder := by
        have hlength := hrest.length
        omega
      have hlost : child.IsLost ↔ c.tree.size = k.index :=
        hnumber 0 child rfl
      have hid : child.IsLost ↔ (⟨c.tree.size⟩ : ElementId) = k := by
        rw [hlost]
        constructor
        · exact congrArg ElementId.mk
        · exact congrArg ElementId.index
      -- the first child with all that is below it, numbered from the size
      -- on
      have hplant : EffacedAt k (plant Metadata.builtin child below c).1
          (plant Metadata.builtin child.copy (below.map Twin.copy)
            c').1 := by
        refine h.plant (ihBelow hbelow (h.addOwn hlost) hid ?_)
        intro number twin htwin
        have hlt := (List.getElem?_eq_some_iff.1 htwin).1
        rw [size_addOwn, hnumber (number + 1) twin ?_]
        · omega
        · rw [Forest.labels, List.getElem?_cons_succ,
            List.getElem?_append_left hlt, htwin]
      have hsize : (plant Metadata.builtin child below c).1.tree.size
          = c.tree.size + (below.size + 1) :=
        (plant_effect Metadata.decorates_builtin child below c).size
      have hplanted : (plant Metadata.builtin child below c).2
          = ⟨c.tree.size⟩ := rfl
      have hplanted' : (plant Metadata.builtin child.copy
          (below.map Twin.copy) c').2 = ⟨c.tree.size⟩ :=
        congrArg ElementId.mk h.size
      rw [Forest.map, grow_cons, grow_cons, hplanted, hplanted']
      -- the rest is numbered after all of these
      refine ihRest hrest (hplant.adopt hindex hchild hfolder hid) hfolder ?_
      intro number twin htwin
      rw [size_adopt, hsize, hnumber (below.size + 1 + number) twin ?_]
      · omega
      · have hback : below.size + number - below.size = number := by omega
        have hnext : below.size + 1 + number = below.size + number + 1 := by
          omega
        rw [hnext, Forest.labels, List.getElem?_cons_succ,
          List.getElem?_append_right, Forest.length_labels, hback, htwin]
        rw [Forest.length_labels]
        omega

/-- Planting the twins under a layer, and planting their copies. -/
theorem plant_effacedAt {twin : Twin α β} {below : Forest (Twin α β)}
    (hbelow : below.IsBelow twin)
    (hnumbers : NumbersLost twin below k) :
    EffacedAt k (plant Metadata.builtin twin below {}).1
      (plant Metadata.builtin twin.copy (below.map Twin.copy) {}).1 := by
  have hempty : EffacedAt k ({} : Construction (Twin α β))
      ({} : Construction β) := by
    have hnone : ({} : ElementTree (Twin α β)).map Twin.copy = {} :=
      congrArg ElementTree.mk Array.map_empty
    unfold EffacedAt
    rw [hnone, ElementTree.effaceAt_of_size_le (Nat.zero_le _)]
  have hlost : twin.IsLost ↔ 0 = k.index := hnumbers 0 twin rfl
  have hid : twin.IsLost ↔ (⟨0⟩ : ElementId) = k := by
    rw [hlost]
    constructor
    · exact congrArg ElementId.mk
    · exact congrArg ElementId.index
  refine hempty.plant (grow_effacedAt hbelow (hempty.addOwn hlost) hid ?_)
  intro number inner hinner
  rw [size_addOwn, hnumbers (number + 1) inner hinner, Nat.add_comm number]
  rfl

-- ============================================================== elements

/-- A layer with a lost name neither absorbs another one nor is
absorbed. -/
theorem not_contracts_of_lost {below : Forest (Twin α β)}
    (hbelow : below.IsBelow folder) (hchild : child ∈ below.roots)
    (h : folder.IsLost ∨ child.IsLost) : ¬Contracts folder child := by
  obtain ⟨i, hi, hat⟩ := hbelow.exists_child? hchild
  rw [← Reference.mergePair_iff, mergePair_of_lost hi hat h]
  exact Bool.false_ne_true

/-- A layer that has lost its name keeps its element: it is merged into
none. -/
theorem mem_outline_of_lost {n i index : Nat} {forest : Forest (Twin α β)}
    (hforest : forest.ListsFrom folder index) {layer : Twin α β}
    (hlayer : forest.labels[i]? = some layer) (hlost : layer.IsLost) :
    ⟨n + i⟩ ∈ (outline folder n forest).ids := by
  induction forest generalizing folder n i index with
  | nil => cases hlayer
  | cons child below rest ihBelow ihRest =>
      obtain ⟨hchild, hbelow, hrest⟩ := hforest
      rw [outline_ids_cons]
      rw [Forest.labels] at hlayer
      cases i with
      | zero =>
          cases hlayer
          have hindex : index < Layer.childCount folder := by
            have hlength := hrest.length
            omega
          rw [mergePair_of_lost hindex hchild (Or.inr hlost)]
          exact List.mem_append_left _ (List.mem_singleton_self _)
      | succ i =>
          rw [List.getElem?_cons_succ] at hlayer
          apply List.mem_append_right
          by_cases hi : i < below.labels.length
          · rw [List.getElem?_append_left hi] at hlayer
            have hmem := ihBelow (n := n + 1) hbelow hlayer
            rw [Nat.add_right_comm] at hmem
            exact List.mem_append_left _ hmem
          · rw [List.getElem?_append_right (Nat.le_of_not_lt hi),
              Forest.length_labels] at hlayer
            rw [Forest.length_labels] at hi
            have hmem := ihRest (n := n + 1 + below.size) hrest hlayer
            have hnumber : n + 1 + below.size + (i - below.size)
                = n + (i + 1) := by
              omega
            rw [hnumber] at hmem
            exact List.mem_append_right _ hmem

namespace BuiltFrom

variable {below : Forest (Twin α β)} {pair : BuiltTree (Twin α β)}

/-- What an attached element was made from, given what is lost. -/
theorem origin_lost (h : BuiltFrom Metadata.builtin twin below pair)
    (hbelow : below.IsBelow twin) (hnumbers : NumbersLost twin below k)
    {id : ElementId} (hid : pair.tree.isAttached id = true) :
    ∃ o : Origin (Twin α β), (o.layer.IsLost ↔ id = k)
      ∧ (o.layer.IsLost → o.absorbed = [])
      ∧ (∀ layer ∈ o.absorbed, ¬layer.IsLost)
      ∧ (twin :: below.labels)[id.index]? = some o.layer
      ∧ ∃ parent? children siblings, pair.tree.get? id
        = some { elementOf Metadata.builtin o with
            parent?, children, siblings } := by
  obtain ⟨o, ho, hindex, hlinks⟩ := h.origin_links hid
  obtain ⟨layer, inside, htree, hlineage⟩ := tree_of_mem_rootOutline ho
  obtain ⟨hlayer, habsorbed⟩ := List.cons.inj hlineage
  have hinside : inside.IsBelow layer := by
    rcases List.mem_cons.1 (List.mem_of_getElem? htree) with heq | hmem
    · cases heq
      exact hbelow
    · rw [Forest.trees, List.append_nil] at hmem
      exact hbelow.isBelow_of_mem_trees hmem
  have hlabel : (twin :: below.labels)[id.index]? = some o.layer := by
    have hfst := congrArg (Option.map Prod.fst) htree
    rw [← List.getElem?_map, Forest.map_fst_trees, Forest.labels,
      Forest.labels, List.append_nil, hindex] at hfst
    rw [hfst, hlayer]
    rfl
  have hcontracts : ∀ child ∈ o.absorbed,
      child ∈ inside.roots ∧ Contracts o.layer child := by
    intro child hchild
    rw [habsorbed, List.mem_filter, decide_eq_true_eq, ← hlayer] at hchild
    exact hchild
  rw [← hlayer] at hinside
  refine ⟨o, ?_, ?_, ?_, hlabel, hlinks⟩
  · rw [hnumbers id.index o.layer hlabel]
    constructor
    · exact congrArg ElementId.mk
    · exact congrArg ElementId.index
  · -- a layer with a lost name takes no part in a merge
    intro hlost
    apply List.eq_nil_iff_forall_not_mem.2
    intro child hchild
    exact not_contracts_of_lost hinside (hcontracts child hchild).1
      (Or.inl hlost) (hcontracts child hchild).2
  · intro child hchild hlost
    exact not_contracts_of_lost hinside (hcontracts child hchild).1
      (Or.inr hlost) (hcontracts child hchild).2


/-- An element whose number is not that of a lost name has a layer that
kept its name. -/
theorem isLost_layer (h : BuiltFrom Metadata.builtin twin below pair)
    (hbelow : below.IsBelow twin) (hnumbers : NumbersLost twin below k)
    {id : ElementId} (hid : pair.tree.isAttached id = true) (hne : id ≠ k)
    {e : Element (Twin α β)} (hget : pair.tree.get? id = some e) :
    ¬e.layer.IsLost := by
  obtain ⟨o, hlost, -, habsorbed, -, parent?, children, siblings, hlinks⟩ :=
    h.origin_lost hbelow hnumbers hid
  rw [hget] at hlinks
  cases hlinks
  have hmem := layer_absorbAll_mem Metadata.decorates_builtin o.absorbed
    (own Metadata.builtin o.layer)
  rw [(own_links Metadata.decorates_builtin o.layer).2.1] at hmem
  rcases List.mem_cons.1 hmem with howner | hmem
  · intro hlayer
    have hlayer' : (elementOf Metadata.builtin o).layer.IsLost := hlayer
    rw [elementOf, howner, hlost] at hlayer'
    exact hne hlayer'
  · exact habsorbed _ hmem

/-- The element of a layer whose name is lost is the one with its number,
and has no class. -/
theorem exists_lost (h : BuiltFrom Metadata.builtin twin below pair)
    (hbelow : below.IsBelow twin) (hnumbers : NumbersLost twin below k)
    {layer : Twin α β}
    (hlayer : (twin :: below.labels)[k.index]? = some layer) :
    ∃ e, pair.tree.get? k = some e ∧ e.detached = false
      ∧ e.layer = layer ∧ e.attribute? "class" = none := by
  have hlost : layer.IsLost := (hnumbers k.index layer hlayer).2 rfl
  have hstays : k ∈ (rootOutline twin below).ids := by
    rw [rootOutline, Forest.ids_cons]
    obtain ⟨number⟩ := k
    cases number with
    | zero => exact List.mem_cons_self
    | succ i =>
        have hmem := mem_outline_of_lost (n := 1) hbelow hlayer hlost
        rw [Nat.add_comm] at hmem
        exact List.mem_cons_of_mem _ (List.mem_append_left _ hmem)
  obtain ⟨e, hget, hattached⟩ :=
    h.grown.attached Metadata.decorates_builtin hstays
  have hid : pair.tree.isAttached k = true :=
    ElementTree.isAttached_iff.2 ⟨e, hget, hattached⟩
  obtain ⟨o, -, habsorbed, -, hlabel, parent?, children, siblings, hlinks⟩ :=
    h.origin_lost hbelow hnumbers hid
  rw [hlayer] at hlabel
  cases hlabel
  rw [elementOf, habsorbed hlost, hget] at hlinks
  refine ⟨e, hget, hattached, ?_, ?_⟩
  · cases hlinks
    exact (own_links Metadata.decorates_builtin o.layer).2.1
  · cases hlinks
    show (own Metadata.builtin o.layer).attribute? "class" = none
    rw [own_of_lost hlost]
    unfold Element.create
    split
    · rfl
    · rfl

end BuiltFrom

end Construction

namespace BuiltTree

open Layer (Twin)

variable {twin : Twin α β} {pair : BuiltTree (Twin α β)}

/-- What is built from an original is built from the twin. -/
theorem exists_build_twin {built : BuiltTree α}
    (h : build Metadata.builtin twin.original = .ok built) :
    ∃ pair : BuiltTree (Twin α β), build Metadata.builtin twin = .ok pair
      ∧ built = pair.map Twin.original := by
  rw [build_map Twin.moves_original.toKeeps] at h
  cases hbuild : build Metadata.builtin twin with
  | error fault =>
      rw [hbuild] at h
      cases h
  | ok pair =>
      rw [hbuild] at h
      exact ⟨pair, rfl, (Except.ok.inj h).symm⟩

/-- From a copy the same tree is built, but for the element with the number
of the name that is lost. -/
theorem exists_build_copy
    (h : build Metadata.builtin twin = .ok pair)
    {below : Forest (Twin α β)} (hbelow : below.IsBelow twin)
    {k : ElementId} (hnumbers : Construction.NumbersLost twin below k) :
    ∃ built : BuiltTree β, build Metadata.builtin twin.copy = .ok built
      ∧ built.tree = (pair.tree.map Twin.copy).effaceAt k
      ∧ built.root = pair.root := by
  unfold build at h ⊢
  rw [Construction.addLayer_eq] at h
  cases hunfold : Construction.unfold (Construction.maxDepth + 1) twin with
  | error fault =>
      rw [hunfold] at h
      cases h
  | ok below' =>
      rw [hunfold] at h
      cases h
      obtain rfl := (hbelow.eq_iff below').1
        (Construction.isBelow_of_unfold hunfold)
      have hcopy := Construction.unfold_copy hunfold
      rw [Construction.addLayer_eq, hcopy]
      exact ⟨_, rfl, Construction.plant_effacedAt hbelow hnumbers, rfl⟩

end BuiltTree

end LayerPage
