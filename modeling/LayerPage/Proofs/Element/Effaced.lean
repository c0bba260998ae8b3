/-
An element that has lost its name: no tag, no attributes, no selector, and
everything else as it was. Only what is written depends on names: changes
of the links and of the declarations come to the same whether an element
loses its name before or after, and layout infers the same for all
elements (`visitWrites_effaceAt`).

Absorbing is the one change that reads attributes. It commutes with the
loss as long as the nameless element is neither absorbed nor absorbs.
-/
import LayerPage.Proofs.Conversion

namespace LayerPage

variable {α : Type}

-- ============================================================== elements

/-- The element without what comes from a name. -/
def Element.effaced (e : Element α) : Element α :=
  { e with tag := "", attributes := ∅, style := e.style.withSelector "" }

/-- A change of rules that leaves selectors alone can be made before or
after effacing. -/
theorem Element.effaced_modifyStyle {g : StyleRule → StyleRule}
    (hg : ∀ rule, (g rule).withSelector "" = g (rule.withSelector ""))
    (e : Element α) :
    (e.modifyStyle g).effaced = e.effaced.modifyStyle g := by
  unfold effaced modifyStyle
  rw [← hg]

theorem StyleRule.withSelector_infer (rule : StyleRule)
    (property value : String) :
    (rule.infer property value).withSelector ""
      = (rule.withSelector "").infer property value := by
  unfold infer infer?
  have hpinned : (rule.withSelector "").isPinned property
      = rule.isPinned property := rfl
  rw [hpinned]
  split
  · rfl
  · rfl

/-- A new element that is effaced has neither tag nor identifier. -/
theorem Element.effaced_create (tag identifier : String) (layer : α) :
    (create tag identifier layer).effaced = create "" "" layer := by
  have hblank : create "" "" layer
      = { tag := "", attributes := ∅, style := { selector := "" }
          layer } := rfl
  rw [hblank]
  unfold create
  split
  · rfl
  · rfl

/-- A class that is lost selects no more. -/
theorem Element.effaced_reselected (e : Element α) :
    e.reselected.effaced = e.effaced.reselected := by
  have hnone : e.effaced.classSelector? = none := rfl
  rw [reselected_of_none hnone]
  rfl

namespace ElementTree

/-- The tree with the element at an index effaced. -/
def effaceAt (tree : ElementTree α) (k : ElementId) : ElementTree α :=
  tree.modify k (·.effaced)

variable {tree : ElementTree α} {k : ElementId}

@[simp] theorem size_effaceAt (tree : ElementTree α) (k : ElementId) :
    (tree.effaceAt k).size = tree.size :=
  size_modify ..

/-- The element at the index itself is effaced. -/
theorem get?_effaceAt_self (tree : ElementTree α) (k : ElementId) :
    (tree.effaceAt k).get? k = (tree.get? k).map (·.effaced) := by
  unfold effaceAt
  rw [get?_modify, if_pos rfl]

/-- The other elements of the tree are not touched. -/
theorem get?_effaceAt_of_ne {id : ElementId} (h : id ≠ k) :
    (tree.effaceAt k).get? id = tree.get? id :=
  get?_modify_of_ne h

/-- Where there is no element, there is nothing to efface. -/
theorem effaceAt_of_size_le (h : tree.size ≤ k.index) :
    tree.effaceAt k = tree := by
  apply ext_get?
  intro i
  by_cases hi : i = k
  · rw [hi, get?_effaceAt_self, get?_eq_none_iff.2 h]
    rfl
  · rw [get?_effaceAt_of_ne hi]

-- =============================================================== access

/-- What does not look at a name is read alike. -/
theorem bind_get?_effaceAt {γ : Type} {g : Element α → Option γ}
    (hg : ∀ e, g e.effaced = g e) (tree : ElementTree α) (k id : ElementId) :
    ((tree.effaceAt k).get? id).bind g = (tree.get? id).bind g := by
  by_cases hid : id = k
  · rw [hid, get?_effaceAt_self, Option.bind_map]
    exact congrArg _ (funext hg)
  · rw [get?_effaceAt_of_ne hid]

/-- Whoever does not look at what is effaced sees no difference. -/
theorem map_get?_effaceAt {γ : Type} {g : Element α → γ}
    (hg : ∀ e, g e.effaced = g e) (tree : ElementTree α) (k id : ElementId) :
    ((tree.effaceAt k).get? id).map g = (tree.get? id).map g := by
  by_cases hid : id = k
  · rw [hid, get?_effaceAt_self, Option.map_map]
    exact congrFun (congrArg Option.map (funext hg)) _
  · rw [get?_effaceAt_of_ne hid]

-- =============================================================== changes

/-- A change that commutes with effacing can be made on either side, at any
element. -/
theorem effaceAt_modify {tree' : ElementTree α}
    (h : tree.effaceAt k = tree') (id : ElementId)
    {g : Element α → Element α} (hg : ∀ e, (g e).effaced = g e.effaced) :
    (tree.modify id g).effaceAt k = tree'.modify id g := by
  rw [← h]
  exact modify_comm (fun e => (hg e).symm) tree id k

/-- Any change can be made on either side at another element. -/
theorem effaceAt_modify_of_ne {tree' : ElementTree α}
    (h : tree.effaceAt k = tree') {id : ElementId} (hid : id ≠ k)
    (g : Element α → Element α) :
    (tree.modify id g).effaceAt k = tree'.modify id g := by
  rw [← h]
  apply ext_get?
  intro i
  by_cases hi : i = k
  · rw [hi, get?_effaceAt_self, get?_modify_of_ne (Ne.symm hid),
      get?_modify_of_ne (Ne.symm hid), get?_effaceAt_self]
  · rw [get?_effaceAt_of_ne hi, get?_modify, get?_modify,
      get?_effaceAt_of_ne hi]

/-- Changing a tree step by step commutes if each step does. -/
theorem effaceAt_foldl {γ : Type} {tree' : ElementTree α}
    (h : tree.effaceAt k = tree')
    {step : ElementTree α → γ → ElementTree α}
    (hstep : ∀ tree item,
      (step tree item).effaceAt k = step (tree.effaceAt k) item)
    (items : List γ) :
    (items.foldl step tree).effaceAt k = items.foldl step tree' := by
  rw [← h]
  exact (List.foldl_hom (·.effaceAt k) fun tree item =>
    (hstep tree item).symm).symm

/-- A new element is effaced as it is inserted if the place is its own. -/
theorem effaceAt_insert (tree : ElementTree α) (k : ElementId)
    (e : Element α) :
    (tree.insert e).1.effaceAt k
      = ((tree.effaceAt k).insert
          (if tree.size = k.index then e.effaced else e)).1 := by
  apply ext_get?
  intro i
  rw [get?_insert, size_effaceAt]
  by_cases hi : i = k
  · rw [hi, get?_effaceAt_self, get?_insert, get?_effaceAt_self]
    by_cases hnew : k.index = tree.size
    · rw [if_pos hnew, if_pos hnew, if_pos hnew.symm]
      rfl
    · rw [if_neg hnew, if_neg hnew]
  · rw [get?_effaceAt_of_ne hi, get?_insert, get?_effaceAt_of_ne hi]
    by_cases hnew : i.index = tree.size
    · have hother : tree.size ≠ k.index := by
        intro hsize
        exact hi (congrArg ElementId.mk (hnew.trans hsize))
      rw [if_pos hnew, if_pos hnew, if_neg hother]
    · rw [if_neg hnew, if_neg hnew]

/-- Links are made between elements that are effaced as between others. -/
theorem effaceAt_appendChild (tree : ElementTree α)
    (k parent child : ElementId) :
    (tree.appendChild parent child).effaceAt k
      = (tree.effaceAt k).appendChild parent child := by
  unfold appendChild
  refine effaceAt_modify ?_ child fun _ => rfl
  exact effaceAt_modify rfl parent fun _ => rfl

/-- Linking siblings does not look at the names of the elements. -/
theorem effaceAt_linkSiblings (tree : ElementTree α)
    (k parent : ElementId) :
    (tree.linkSiblings parent).effaceAt k
      = (tree.effaceAt k).linkSiblings parent := by
  have hchildren : ((tree.effaceAt k).get? parent).map (·.children)
      = (tree.get? parent).map (·.children) :=
    map_get?_effaceAt (fun _ => rfl) tree k parent
  unfold linkSiblings
  cases hget : tree.get? parent with
  | none =>
      rw [hget, Option.map_none, Option.map_eq_none_iff] at hchildren
      rw [hchildren]
  | some e =>
      rw [hget, Option.map_some] at hchildren
      obtain ⟨e', hget', heq⟩ := Option.map_eq_some_iff.1 hchildren
      rw [hget']
      simp only [heq]
      refine effaceAt_foldl rfl (fun tree child => ?_) e.children
      exact effaceAt_modify rfl child fun _ => rfl

/-- An element is detached whether it is effaced before or after. -/
theorem effaceAt_detach (tree : ElementTree α) (k id : ElementId) :
    (tree.detach id).effaceAt k = (tree.effaceAt k).detach id := by
  have hparent : ((tree.effaceAt k).get? id).bind (·.parent?)
      = (tree.get? id).bind (·.parent?) :=
    bind_get?_effaceAt (fun _ => rfl) tree k id
  unfold detach
  rw [hparent]
  cases (tree.get? id).bind (·.parent?) with
  | none => exact effaceAt_modify rfl id fun _ => rfl
  | some parent =>
      refine effaceAt_modify ?_ id fun _ => rfl
      exact effaceAt_modify rfl parent fun _ => rfl

/-- A merge of two other elements does not meet the one that is effaced. -/
theorem effaceAt_merge {target child : ElementId} (htarget : target ≠ k)
    (hchild : child ≠ k) (tree : ElementTree α) :
    (tree.merge target child).effaceAt k
      = (tree.effaceAt k).merge target child := by
  unfold merge
  simp only [← effaceAt_detach, get?_effaceAt_of_ne hchild]
  cases (tree.detach child).get? child with
  | none => rfl
  | some absorbed =>
      refine effaceAt_foldl ?_ (fun tree grandchild =>
        effaceAt_appendChild tree k target grandchild) absorbed.children
      refine effaceAt_modify_of_ne ?_ htarget _
      exact effaceAt_modify_of_ne rfl hchild _

/-- A change of rules that leaves selectors alone can be made in either
tree. -/
theorem effaceAt_modifyStyle {g : StyleRule → StyleRule}
    (hg : ∀ rule, (g rule).withSelector "" = g (rule.withSelector ""))
    (tree : ElementTree α) (k id : ElementId) :
    (tree.modifyStyle id g).effaceAt k = (tree.effaceAt k).modifyStyle id g :=
  effaceAt_modify rfl id fun e => e.effaced_modifyStyle hg

/-- The writes of layout can be carried out in either tree. -/
theorem effaceAt_carryOut (tree : ElementTree α) (k : ElementId)
    (writes : List Layout.Write) :
    (Layout.carryOut tree writes).effaceAt k
      = Layout.carryOut (tree.effaceAt k) writes :=
  effaceAt_foldl rfl (fun tree w => effaceAt_modifyStyle
    (fun rule => rule.withSelector_infer w.property w.value) tree k w.target)
    writes

/-- Selectors can be given in either tree, since the element that is effaced
has no class to be selected by. -/
theorem effaceAt_selectAll (tree : ElementTree α) (k : ElementId)
    (ids : List ElementId) :
    (Heuristic.selectAll tree ids).effaceAt k
      = Heuristic.selectAll (tree.effaceAt k) ids := by
  refine effaceAt_foldl rfl (fun tree id => ?_) ids
  exact effaceAt_modify rfl id fun e => e.effaced_reselected

-- =============================================================== reading

@[simp] theorem parentId?_effaceAt (tree : ElementTree α)
    (k id : ElementId) :
    (tree.effaceAt k).parentId? id = tree.parentId? id :=
  bind_get?_effaceAt (fun _ => rfl) tree k id

@[simp] theorem valueOf?_effaceAt (tree : ElementTree α) (k id : ElementId)
    (property : String) :
    (tree.effaceAt k).valueOf? id property = tree.valueOf? id property :=
  bind_get?_effaceAt (fun _ => rfl) tree k id

@[simp] theorem isPinned_effaceAt (tree : ElementTree α)
    (k id : ElementId) (property : String) :
    (tree.effaceAt k).isPinned id property = tree.isPinned id property := by
  unfold isPinned
  by_cases hid : id = k
  · rw [hid, get?_effaceAt_self, Option.any_map]
    rfl
  · rw [get?_effaceAt_of_ne hid]

/-- An element floats, and in the same parent, whether it is effaced or
not. -/
@[simp] theorem floatParent?_effaceAt (tree : ElementTree α)
    (k id : ElementId) :
    Heuristic.floatParent? (tree.effaceAt k) id
      = Heuristic.floatParent? tree id := by
  unfold Heuristic.floatParent?
  rw [valueOf?_effaceAt, parentId?_effaceAt]

/-- The elements are visited in the same order. -/
@[simp] theorem descendants_effaceAt (tree : ElementTree α)
    (k root : ElementId) :
    (tree.effaceAt k).descendants root = tree.descendants root := by
  have hwithin : ∀ levels id, (tree.effaceAt k).descendantsWithin levels id
      = tree.descendantsWithin levels id := by
    intro levels
    induction levels with
    | zero => intro id; rfl
    | succ levels ih =>
        intro id
        have hchildren : ((tree.effaceAt k).get? id).map (·.children)
            = (tree.get? id).map (·.children) :=
          map_get?_effaceAt (fun _ => rfl) tree k id
        rw [descendantsWithin, descendantsWithin, funext ih, hchildren]
  unfold descendants
  rw [size_effaceAt, hwithin]

-- ================================================================ layout

variable [Layer α]

@[simp] theorem boundsAt_effaceAt (tree : ElementTree α) (k id : ElementId) :
    (tree.effaceAt k).boundsAt id = tree.boundsAt id := by
  unfold boundsAt
  rw [map_get?_effaceAt fun _ => rfl]

/-- The peers of an element have the same order in flow. -/
@[simp] theorem flowOrder_effaceAt (tree : ElementTree α)
    (k id : ElementId) :
    (tree.effaceAt k).flowOrder id = tree.flowOrder id := by
  unfold flowOrder
  simp only [boundsAt_effaceAt]
  rw [map_get?_effaceAt fun _ => rfl]

@[simp] theorem prevInFlow?_effaceAt (tree : ElementTree α)
    (k id : ElementId) :
    (tree.effaceAt k).prevInFlow? id = tree.prevInFlow? id := by
  unfold prevInFlow?
  rw [flowOrder_effaceAt]

@[simp] theorem nextInFlow?_effaceAt (tree : ElementTree α)
    (k id : ElementId) :
    (tree.effaceAt k).nextInFlow? id = tree.nextInFlow? id := by
  unfold nextInFlow?
  rw [flowOrder_effaceAt]

/-- The kind of a layer is not effaced with its element. -/
@[simp] theorem normalParent?_effaceAt (tree : ElementTree α)
    (k id : ElementId) :
    (tree.effaceAt k).normalParent? id = tree.normalParent? id := by
  have hnormal : (tree.effaceAt k).isNormal = tree.isNormal := by
    funext p
    unfold isNormal
    by_cases hp : p = k
    · rw [hp, get?_effaceAt_self, Option.any_map]
      rfl
    · rw [get?_effaceAt_of_ne hp]
  unfold normalParent?
  rw [parentId?_effaceAt, hnormal]

end ElementTree

/-- Layout infers the same whether an element has a name or not. -/
theorem Layout.visitWrites_effaceAt [Layer α] (tree : ElementTree α)
    (k id : ElementId) :
    visitWrites (tree.effaceAt k) id = visitWrites tree id := by
  have hcolour : colour? (tree.effaceAt k) id = colour? tree id := by
    unfold colour?
    rw [ElementTree.bind_get?_effaceAt fun _ => rfl]
  have hbox : boxWrites (tree.effaceAt k) id = boxWrites tree id := by
    funext parent
    unfold boxWrites paddingWrites paddedHeight? baseHeight? offset?
      spacingWrites above? level? between?
    simp only [ElementTree.boundsAt_effaceAt,
      ElementTree.prevInFlow?_effaceAt, ElementTree.nextInFlow?_effaceAt,
      ElementTree.parentId?_effaceAt, ElementTree.valueOf?_effaceAt,
      ElementTree.isPinned_effaceAt]
  unfold visitWrites sizeWrites
  rw [hcolour, hbox, ElementTree.boundsAt_effaceAt,
    ElementTree.parentId?_effaceAt, ElementTree.normalParent?_effaceAt]

end LayerPage
