/-
Layout in words of 64 bits. Places and sizes have 32 bits, and layout goes
on with their sums and differences, and with a height that a rule may
declare as it likes. Here the same work is done with a check of every
number that is read or comes up on the way: without an outcome if one of
them does not fit in a word. `boxModel?_eq` says that each of them fits,
whatever the tree.

Sums of two places and differences of two such sums need 35 bits at most,
which leaves room enough (`word?_eq`). A height that is read back fits
because only such heights are read at all, and what is taken from it
cannot leave the word, since that subtraction stays at the end of the
range.
-/
import LayerPage.Proofs.Layout.Trace

namespace LayerPage

namespace Layout

namespace Checked

open Length (px parsePx? saturatingSub)

-- ================================================================ words

/-- A number, if it fits in a signed word. -/
def word? (n : Int) : Option Int :=
  if Text.fitsSigned Length.bits n then some n else none

/-- A sum of words, if it is one. -/
def add? (a b : Int) : Option Int := do
  word? ((← word? a) + (← word? b))

/-- A difference of words, if it is one. -/
def sub? (a b : Int) : Option Int := do
  word? ((← word? a) - (← word? b))

/-- The least of the numbers from zero on and from another number on. -/
def atLeastZero? (n : Int) : Option Int := do
  word? (max (← word? n) 0)

/-- A number that fits is a word. -/
theorem word?_of_fits {n : Int}
    (h : Text.fitsSigned Length.bits n = true) : word? n = some n := by
  rw [word?, if_pos h]

/-- Numbers of 36 bits are words. -/
theorem word?_eq {n : Int} (hlow : -34359738368 ≤ n)
    (hhigh : n ≤ 34359738368) : word? n = some n := by
  apply word?_of_fits
  rw [Length.fitsSigned_iff]
  omega

/-- Numbers of 34 bits can be added. -/
theorem add?_eq {a b : Int} (halow : -8589934592 ≤ a)
    (hahigh : a ≤ 8589934592) (hblow : -8589934592 ≤ b)
    (hbhigh : b ≤ 8589934592) : add? a b = some (a + b) := by
  have ha : word? a = some a := word?_eq (by omega) (by omega)
  have hb : word? b = some b := word?_eq (by omega) (by omega)
  have hsum : word? (a + b) = some (a + b) :=
    word?_eq (by omega) (by omega)
  simp [add?, ha, hb, hsum]

theorem sub?_eq {a b : Int} (halow : -8589934592 ≤ a)
    (hahigh : a ≤ 8589934592) (hblow : -8589934592 ≤ b)
    (hbhigh : b ≤ 8589934592) : sub? a b = some (a - b) := by
  have ha : word? a = some a := word?_eq (by omega) (by omega)
  have hb : word? b = some b := word?_eq (by omega) (by omega)
  have hdiff : word? (a - b) = some (a - b) :=
    word?_eq (by omega) (by omega)
  simp [sub?, ha, hb, hdiff]

/-- A difference that stays in the range is a word. -/
theorem word?_saturatingSub (a b : Int) :
    word? (saturatingSub a b) = some (saturatingSub a b) := by
  apply word?_of_fits
  rw [Length.fitsSigned_iff, saturatingSub, Int64.toInt_minValue,
    Int64.toInt_maxValue]
  omega

/-- Cutting a word off at zero leaves a word. -/
theorem atLeastZero?_eq {n : Int} (h : word? n = some n) :
    atLeastZero? n = some (max n 0) := by
  have hmax : word? (max n 0) = some (max n 0) := by
    rcases Int.le_total n 0 with hn | hn
    · rw [Int.max_eq_right hn]
      exact word?_eq (by omega) (by omega)
    · rw [Int.max_eq_left hn]
      exact h
  simp [atLeastZero?, h, hmax]

/-- A length that is read is a word. -/
theorem word?_of_parsePx? {text : String} {n : Int}
    (h : parsePx? text = some n) : word? n = some n :=
  word?_of_fits (Length.fitsSigned_of_parsePx? h)

-- =============================================================== layout

/-- The right edge of a layer. -/
def right? (b : Bounds) : Option Int :=
  add? b.x.toInt b.width.toInt

/-- The bottom edge of a layer. -/
def bottom? (b : Bounds) : Option Int :=
  add? b.y.toInt b.height.toInt

/-- Centring, if its numbers fit. -/
def centre? (parent own : Bounds) (style : StyleRule) :
    Option StyleRule := do
  let behind ← sub? (← right? parent) (← right? own)
  let before ← sub? own.left parent.left
  if behind = before then
    return (style.infer "margin-left" "auto").infer "margin-right" "auto"
  else
    return style

/-- Padding, if its numbers fit. -/
def padTop? (offset : Int) (style : StyleRule) : Option StyleRule :=
  match style.infer? "padding-top" (px offset) with
  | none => some style
  | some style =>
    match (style.get? "height").bind parsePx? with
    | some height => do
      let left ← word? (saturatingSub (← word? height) (← word? offset))
      return style.infer "height" (px (← atLeastZero? left))
    | none => some style

variable {α : Type}

/-- Change the rule of an element, if there is an outcome. -/
def modifyStyle? (tree : ElementTree α) (id : ElementId)
    (f : StyleRule → Option StyleRule) : Option (ElementTree α) :=
  match tree.get? id with
  | none => some tree
  | some e => (f e.style).map fun style => tree.modifyStyle id fun _ => style

variable [Layer α]

/-- Spacing two peers, if the distances fit. -/
def spaceNext? (tree : ElementTree α) (id : ElementId) (own : Bounds)
    (next : ElementId) : Option (ElementTree α) := do
  let nextBounds := tree.boundsAt next
  let gap ← sub? nextBounds.top (← bottom? own)
  let tree :=
    if gap > 0 then
      tree.modifyStyle next (·.infer "margin-top" (px gap))
    else tree
  if nextBounds.top = own.top then
    let tree := tree.modifyStyle id (·.infer "float" "left")
    let tree := tree.modifyStyle next (·.infer "float" "left")
    let gap ← sub? nextBounds.left (← right? own)
    return if gap > 0 then
      tree.modifyStyle id (·.infer "margin-right" (px gap)) else tree
  else
    return tree

/-- The box model of a visit, if all its numbers fit. -/
def boxModel? (tree : ElementTree α) (id parentId : ElementId) :
    Option (ElementTree α) := do
  let parent := tree.boundsAt parentId
  let own := tree.boundsAt id
  let tree ← modifyStyle? tree id (centre? parent own)
  let prev? := tree.prevInFlow? id
  let next? := tree.nextInFlow? id
  let offset ← sub? own.top parent.top
  let tree ←
    if prev?.isNone && offset > 0 then
      modifyStyle? tree parentId (padTop? offset)
    else some tree
  match next? with
  | some next => spaceNext? tree id own next
  | none => some tree

-- ============================================================ agreement

/-- Places and sizes are far from the ends of a word. -/
theorem toInt_bounds (n : Int32) :
    -2147483648 ≤ n.toInt ∧ n.toInt < 2147483648 :=
  ⟨n.le_toInt, n.toInt_lt⟩

theorem right?_eq (b : Bounds) : right? b = some b.right := by
  have hx := toInt_bounds b.x
  have hwidth := toInt_bounds b.width
  exact add?_eq (by omega) (by omega) (by omega) (by omega)

/-- The bottom of any bounds is a word. -/
theorem bottom?_eq (b : Bounds) : bottom? b = some b.bottom := by
  have hy := toInt_bounds b.y
  have hheight := toInt_bounds b.height
  exact add?_eq (by omega) (by omega) (by omega) (by omega)

/-- Edges are sums of two words of 32 bits, so they fit in 33. -/
theorem edge_bounds (b : Bounds) :
    (-4294967296 ≤ b.right ∧ b.right < 4294967296)
      ∧ -4294967296 ≤ b.bottom ∧ b.bottom < 4294967296 := by
  have hx := toInt_bounds b.x
  have hy := toInt_bounds b.y
  have hwidth := toInt_bounds b.width
  have hheight := toInt_bounds b.height
  unfold Bounds.right Bounds.bottom
  omega

/-- Centring overflows nowhere. -/
theorem centre?_eq (parent own : Bounds) (style : StyleRule) :
    centre? parent own style = some (centre parent own style) := by
  have hparent := edge_bounds parent
  have hown := edge_bounds own
  have hx := toInt_bounds parent.x
  have hx' := toInt_bounds own.x
  have hbehind : sub? parent.right own.right
      = some (parent.right - own.right) :=
    sub?_eq (by omega) (by omega) (by omega) (by omega)
  have hbefore : sub? own.left parent.left
      = some (own.left - parent.left) := by
    unfold Bounds.left
    exact sub?_eq (by omega) (by omega) (by omega) (by omega)
  unfold centre? centre
  simp only [right?_eq, hbehind, hbefore, bind, Option.bind_some]
  split
  · rfl
  · rfl

/-- Padding overflows nowhere: what it takes from a height saturates. -/
theorem padTop?_eq {offset : Int} (hoffset : word? offset = some offset)
    (style : StyleRule) :
    padTop? offset style = some (padTop offset style) := by
  unfold padTop? padTop
  cases style.infer? "padding-top" (px offset) with
  | none => rfl
  | some padded =>
      cases hheight : (padded.get? "height").bind parsePx? with
      | none => simp only [hheight]
      | some height =>
          obtain ⟨text, -, hread⟩ := Option.bind_eq_some_iff.1 hheight
          have hleft := word?_saturatingSub height offset
          simp only [hheight, hoffset, word?_of_parsePx? hread, hleft,
            atLeastZero?_eq hleft, bind, Option.bind_some]
          rfl

omit [Layer α] in
/-- A change of rules that always succeeds is one of the tree that does. -/
theorem modifyStyle?_eq {f : StyleRule → Option StyleRule}
    {g : StyleRule → StyleRule} (h : ∀ style, f style = some (g style))
    (tree : ElementTree α) (id : ElementId) :
    modifyStyle? tree id f = some (tree.modifyStyle id g) := by
  unfold modifyStyle?
  cases hget : tree.get? id with
  | none =>
      have hsame : tree.modifyStyle id g = tree := by
        refine Eq.trans ?_ (ElementTree.modify_id tree id)
        apply ElementTree.modify_congr
        intro e he
        rw [hget] at he
        cases he
      rw [hsame]
  | some e =>
      simp only [h, Option.map_some]
      congr 1
      apply ElementTree.modify_congr
      intro e' he'
      rw [hget] at he'
      cases he'
      rfl

/-- Spacing overflows nowhere. -/
theorem spaceNext?_eq (tree : ElementTree α) (id : ElementId) (own : Bounds)
    (next : ElementId) :
    spaceNext? tree id own next = some (spaceNext tree id own next) := by
  have hown := edge_bounds own
  have hx := toInt_bounds (tree.boundsAt next).x
  have hy := toInt_bounds (tree.boundsAt next).y
  have habove : sub? (tree.boundsAt next).top own.bottom
      = some ((tree.boundsAt next).top - own.bottom) := by
    unfold Bounds.top
    exact sub?_eq (by omega) (by omega) (by omega) (by omega)
  have hbetween : sub? (tree.boundsAt next).left own.right
      = some ((tree.boundsAt next).left - own.right) := by
    unfold Bounds.left
    exact sub?_eq (by omega) (by omega) (by omega) (by omega)
  unfold spaceNext? spaceNext
  simp only [bottom?_eq, right?_eq, habove, hbetween, bind,
    Option.bind_some]
  split
  · rfl
  · rfl

/-- No number that comes up in a visit leaves a word. -/
theorem boxModel?_eq (tree : ElementTree α) (id parent : ElementId) :
    boxModel? tree id parent = some (boxModel tree id parent) := by
  have hy := toInt_bounds (tree.boundsAt id).y
  have hy' := toInt_bounds (tree.boundsAt parent).y
  have hoffset : sub? (tree.boundsAt id).top (tree.boundsAt parent).top
      = some ((tree.boundsAt id).top - (tree.boundsAt parent).top) := by
    unfold Bounds.top
    exact sub?_eq (by omega) (by omega) (by omega) (by omega)
  have hword : word? ((tree.boundsAt id).top - (tree.boundsAt parent).top)
      = some ((tree.boundsAt id).top - (tree.boundsAt parent).top) := by
    unfold Bounds.top
    exact word?_eq (by omega) (by omega)
  unfold boxModel? boxModel
  simp only [modifyStyle?_eq (centre?_eq _ _), hoffset, bind,
    Option.bind_some, modifyStyle?_eq (padTop?_eq hword), spaceNext?_eq]
  generalize tree.modifyStyle id _ = centred
  split
  · cases centred.nextInFlow? id with
    | none => rfl
    | some next => rfl
  · cases centred.nextInFlow? id with
    | none => rfl
    | some next => rfl

end Checked

end Layout

end LayerPage
