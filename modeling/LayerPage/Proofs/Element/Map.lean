/-
The same elements for other layers. Nothing that changes a tree looks
into the layers behind its elements, so it makes no difference whether a
tree is changed and then gets other layers, or gets them first: every
change commutes with `ElementTree.map`. What is read off a tree without
looking into a layer is the same for both.

The equations for changes all come from one, `map_modify`: a change at
one element commutes if it does on every element alone.
-/
import LayerPage.Markup
import LayerPage.Proofs.Heuristic

namespace LayerPage

variable {α β : Type}

/-- The same element for another layer. -/
def Element.map (f : α → β) (e : Element α) : Element β where
  tag := e.tag
  attributes := e.attributes
  style := e.style
  layer := f e.layer
  parent? := e.parent?
  children := e.children
  siblings := e.siblings
  detached := e.detached

namespace ElementTree

/-- The same elements for other layers. -/
def map (f : α → β) (tree : ElementTree α) : ElementTree β :=
  ⟨tree.elements.map (·.map f)⟩

@[simp] theorem size_map (f : α → β) (tree : ElementTree α) :
    (tree.map f).size = tree.size :=
  Array.size_map

@[simp] theorem get?_map (f : α → β) (tree : ElementTree α)
    (id : ElementId) : (tree.map f).get? id = (tree.get? id).map (·.map f) :=
  Array.getElem?_map

-- =============================================================== changes

/-- An element is inserted at the same place before and after its layer is
exchanged. -/
theorem insert_map (f : α → β) (tree : ElementTree α) (e : Element α) :
    (tree.map f).insert (e.map f)
      = ((tree.insert e).1.map f, (tree.insert e).2) := by
  apply Prod.ext
  · apply ext_get?
    intro i
    rw [get?_map, get?_insert, get?_insert, size_map, get?_map]
    split
    · rfl
    · rfl
  · exact congrArg ElementId.mk (size_map f tree)

/-- A change that commutes with exchanging layers can be made on either
side. -/
theorem map_modify {f : α → β} {tree : ElementTree α}
    {tree' : ElementTree β} (h : tree.map f = tree') (id : ElementId)
    {g : Element α → Element α} {g' : Element β → Element β}
    (hg : ∀ e, (g e).map f = g' (e.map f)) :
    (tree.modify id g).map f = tree'.modify id g' := by
  subst h
  apply ext_get?
  intro i
  rw [get?_map, get?_modify, get?_modify, get?_map]
  split
  · rw [Option.map_map, Option.map_map]
    exact congrFun (congrArg Option.map (funext hg)) _
  · rfl

/-- Changing a tree step by step commutes if each step does. -/
theorem map_foldl {γ : Type} {f : α → β} {tree : ElementTree α}
    {tree' : ElementTree β} (h : tree.map f = tree')
    {step : ElementTree α → γ → ElementTree α}
    {step' : ElementTree β → γ → ElementTree β}
    (hstep : ∀ tree item, (step tree item).map f = step' (tree.map f) item)
    (items : List γ) :
    (items.foldl step tree).map f = items.foldl step' tree' := by
  induction items generalizing tree tree' with
  | nil => exact h
  | cons item rest ih =>
      refine ih ?_
      rw [hstep, h]

/-- Links are the same in both trees, so they are made in the same way. -/
theorem map_appendChild (f : α → β) (tree : ElementTree α)
    (parent child : ElementId) :
    (tree.appendChild parent child).map f
      = (tree.map f).appendChild parent child := by
  unfold appendChild
  refine map_modify ?_ child fun _ => rfl
  exact map_modify rfl parent fun _ => rfl

/-- An element is detached in both trees alike. -/
theorem map_detach (f : α → β) (tree : ElementTree α) (id : ElementId) :
    (tree.detach id).map f = (tree.map f).detach id := by
  have hparent : ((tree.map f).get? id).bind (·.parent?)
      = (tree.get? id).bind (·.parent?) := by
    rw [get?_map]
    exact Option.bind_map ..
  unfold detach
  rw [hparent]
  cases (tree.get? id).bind (·.parent?) with
  | none => exact map_modify rfl id fun _ => rfl
  | some parent =>
      refine map_modify ?_ id fun _ => rfl
      exact map_modify rfl parent fun _ => rfl

/-- Merging looks at links, attributes and rules, which are the same. -/
theorem map_merge (f : α → β) (tree : ElementTree α)
    (target child : ElementId) :
    (tree.merge target child).map f = (tree.map f).merge target child := by
  unfold merge
  simp only [← map_detach, get?_map]
  cases (tree.detach child).get? child with
  | none => rfl
  | some absorbed =>
      refine map_foldl ?_ (fun _ _ => map_appendChild ..) absorbed.children
      refine map_modify ?_ target fun _ => rfl
      exact map_modify rfl child fun _ => rfl

/-- Linking siblings does not look at the layers of the elements. -/
theorem map_linkSiblings (f : α → β) (tree : ElementTree α)
    (parent : ElementId) :
    (tree.linkSiblings parent).map f = (tree.map f).linkSiblings parent := by
  unfold linkSiblings
  rw [get?_map]
  cases tree.get? parent with
  | none => rfl
  | some e =>
      refine map_foldl rfl (fun tree child => ?_) e.children
      exact map_modify rfl child fun _ => rfl

/-- A change of rules can be made in either tree. -/
theorem map_modifyStyle (f : α → β) (tree : ElementTree α) (id : ElementId)
    (g : StyleRule → StyleRule) :
    (tree.modifyStyle id g).map f = (tree.map f).modifyStyle id g :=
  map_modify rfl id fun _ => rfl

/-- The writes of layout can be carried out in either tree, if they are the
same ones. -/
theorem map_carryOut (f : α → β) (tree : ElementTree α)
    (writes : List Layout.Write) :
    (Layout.carryOut tree writes).map f
      = Layout.carryOut (tree.map f) writes :=
  map_foldl rfl (fun _ _ => map_modifyStyle ..) writes

/-- Selectors are made of tags and classes, and come out the same. -/
theorem map_selectAll (f : α → β) (tree : ElementTree α)
    (ids : List ElementId) :
    (Heuristic.selectAll tree ids).map f
      = Heuristic.selectAll (tree.map f) ids := by
  refine map_foldl rfl (fun tree id => ?_) ids
  unfold Heuristic.select
  exact map_modify rfl id fun _ => rfl

-- =============================================================== reading

/-- What does not look into the layer of an element is read alike. -/
theorem bind_get?_map (f : α → β) (tree : ElementTree α) (id : ElementId)
    {γ : Type} {g : Element α → Option γ} {g' : Element β → Option γ}
    (hg : ∀ e, g' (e.map f) = g e) :
    ((tree.map f).get? id).bind g' = (tree.get? id).bind g := by
  rw [get?_map, Option.bind_map]
  exact congrArg _ (funext hg)

/-- What does not look at the layer is the same in both. -/
theorem map_get?_map (f : α → β) (tree : ElementTree α) (id : ElementId)
    {γ : Type} {g : Element α → γ} {g' : Element β → γ}
    (hg : ∀ e, g' (e.map f) = g e) :
    ((tree.map f).get? id).map g' = (tree.get? id).map g := by
  rw [get?_map, Option.map_map]
  exact congrFun (congrArg Option.map (funext hg)) _

@[simp] theorem parentId?_map (f : α → β) (tree : ElementTree α)
    (id : ElementId) : (tree.map f).parentId? id = tree.parentId? id :=
  bind_get?_map f tree id fun _ => rfl

@[simp] theorem valueOf?_map (f : α → β) (tree : ElementTree α)
    (id : ElementId) (k : String) :
    (tree.map f).valueOf? id k = tree.valueOf? id k :=
  bind_get?_map f tree id fun _ => rfl

@[simp] theorem isPinned_map (f : α → β) (tree : ElementTree α)
    (id : ElementId) (k : String) :
    (tree.map f).isPinned id k = tree.isPinned id k := by
  unfold isPinned
  rw [get?_map, Option.any_map]
  rfl

/-- An element floats, and in the same parent, whatever its layer. -/
@[simp] theorem floatParent?_map (f : α → β) (tree : ElementTree α)
    (id : ElementId) :
    Heuristic.floatParent? (tree.map f) id
      = Heuristic.floatParent? tree id := by
  unfold Heuristic.floatParent?
  rw [valueOf?_map, parentId?_map]

/-- Elements are visited in the same order. -/
@[simp] theorem descendants_map (f : α → β) (tree : ElementTree α)
    (root : ElementId) :
    (tree.map f).descendants root = tree.descendants root := by
  have hwithin : ∀ levels id, (tree.map f).descendantsWithin levels id
      = tree.descendantsWithin levels id := by
    intro levels
    induction levels with
    | zero => intro id; rfl
    | succ levels ih =>
        intro id
        have hchildren : ((tree.map f).get? id).map (·.children)
            = (tree.get? id).map (·.children) :=
          map_get?_map f tree id fun _ => rfl
        rw [descendantsWithin, descendantsWithin, funext ih, hchildren]
  unfold descendants
  rw [size_map, hwithin]

/-- Markup does not look at layers. -/
@[simp] theorem markup?_map (f : α → β) (tree : ElementTree α)
    (root : ElementId) : (tree.map f).markup? root = tree.markup? root := by
  have hwithin : ∀ levels id, (tree.map f).markupWithin? levels id
      = tree.markupWithin? levels id := by
    intro levels
    induction levels with
    | zero => intro id; rfl
    | succ levels ih =>
        intro id
        rw [markupWithin?, markupWithin?, get?_map, funext ih]
        cases tree.get? id with
        | none => rfl
        | some e => rfl
  unfold markup?
  rw [size_map, hwithin]

end ElementTree

end LayerPage
