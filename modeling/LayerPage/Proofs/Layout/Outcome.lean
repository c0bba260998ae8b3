/-
The outcome of layout: after every element was visited once, parents
before their children, each property that is not pinned has the value
that geometry gives it (`outcome`), and has none if geometry gives none.

# Who speaks

A property of an element is inferred by the visit of that element, of the
one before it in flow, or of its first child. For most properties one
visit alone can speak (`latest?_flatMap_of_speaker`). Two are left:

- the height, where the first child speaks after the element itself,
  because parents are visited first;
- floating, where both neighbours speak and say the same. They stand for
  all level peers, since these stand next to each other in flow.
-/
import LayerPage.Proofs.Build.Pins
import LayerPage.Proofs.Layout.Geometry
import LayerPage.Proofs.Layout.Run

namespace LayerPage

namespace Layout

variable {α : Type}

open Length (px parsePx? saturatingSub)

-- ============================================================= speakers

/-- If nobody but a speaker says anything about a property, there is a
value exactly if there is a speaker and it gives one. -/
theorem latest?_flatMap_of_speaker {ids : List ElementId}
    {f : ElementId → List Write} {i : ElementId} {k : String}
    (speaker? : Option ElementId)
    (hmem : ∀ v, speaker? = some v → v ∈ ids)
    (hsilent : ∀ u ∈ ids, speaker? ≠ some u → latest? (f u) i k = none) :
    latest? (ids.flatMap f) i k
      = speaker?.bind fun v => latest? (f v) i k := by
  cases speaker? with
  | none =>
      apply latest?_flatMap_eq_none
      intro u hu
      exact hsilent u hu (Option.some_ne_none u).symm
  | some v =>
      rw [Option.bind_some]
      apply latest?_flatMap_of_only (hmem v rfl)
      intro u hu hne
      apply hsilent u hu
      rintro heq
      exact hne (Option.some.inj heq).symm

variable [Layer α] {tree : ElementTree α} {root : ElementId}
  {ids : List ElementId} {id : ElementId}

/-- A background is offered by the visit of its own element, once and for
all. -/
theorem latest?_run_background (hid : id ∈ ids) :
    latest? (ids.flatMap (visitWrites tree)) id "background"
      = Geometry.background? tree id := by
  rw [latest?_flatMap_of_only hid]
  · rw [latest?_visit_background, if_pos rfl]
    unfold colour? Geometry.background?
    cases (tree.get? id).bind fun e => Layer.sample? e.layer 0 0 with
    | none => rfl
    | some colour =>
        have hseen : colour.a > 0 ↔ colour.isTransparent = false := by
          rw [Colour.isTransparent, beq_eq_false_iff_ne]
          exact UInt8.pos_iff_ne_zero
        rw [Option.filter_some, Option.bind_some]
        by_cases htransparent : colour.isTransparent = true
        · rw [if_neg (by simp [htransparent]), if_neg]
          · rfl
          · rw [hseen, htransparent]
            exact Bool.true_eq_false.mp
        · rw [if_pos (by simp [htransparent]), if_pos]
          · rfl
          · rw [hseen]
            exact Bool.eq_false_iff.2 htransparent
  · intro u _ hne
    rw [latest?_visit_background, if_neg hne]

/-- A width is offered by the own visit of an element, unless it has no
parent. -/
theorem latest?_run_width (hid : id ∈ ids) :
    latest? (ids.flatMap (visitWrites tree)) id "width"
      = Geometry.width? tree id := by
  rw [latest?_flatMap_of_only hid]
  · rw [latest?_visit_width, if_pos rfl]
    unfold Geometry.width?
    cases tree.parentId? id with
    | none => rfl
    | some p => rfl
  · intro u _ hne
    rw [latest?_visit_width, if_neg hne]

/-- An element is centred by its own visit. -/
theorem latest?_run_marginLeft (hid : id ∈ ids) :
    latest? (ids.flatMap (visitWrites tree)) id "margin-left"
      = Geometry.centring? tree id := by
  rw [latest?_flatMap_of_only hid]
  · rw [latest?_visit_marginLeft]
    simp only [if_true]
    rfl
  · intro u _ hne
    rw [latest?_visit_marginLeft]
    simp only [if_neg hne, Option.bind_fun_none]

/-- On the right, the distance to the next peer counts more than being
centred. -/
theorem latest?_run_marginRight (hwell : tree.WellFormed root)
    (hid : id ∈ ids) :
    latest? (ids.flatMap (visitWrites tree)) id "margin-right"
      = Geometry.marginRight? tree id := by
  rw [latest?_flatMap_of_only hid]
  · rw [latest?_visit_marginRight]
    simp only [if_true]
    unfold Geometry.marginRight? Geometry.gap? Geometry.centring?
    cases hp : tree.normalParent? id with
    | none =>
        unfold Geometry.next?
        rw [hp]
        rfl
    | some p =>
        rw [Geometry.next?_of_normalParent? hwell hp]
        rfl
  · intro u _ hne
    rw [latest?_visit_marginRight]
    simp only [if_neg hne, Option.bind_fun_none]

/-- The margin above is offered by the peer that comes before, which is
visited as well. -/
theorem latest?_run_marginTop (hwell : tree.WellFormed root)
    (horder : VisitOrder tree ids) :
    latest? (ids.flatMap (visitWrites tree)) id "margin-top"
      = Geometry.marginTop? tree id := by
  have hvisit : ∀ u, latest? (visitWrites tree u) id "margin-top"
      = if Geometry.previous? tree id = some u then above? tree u id
        else none := by
    intro u
    rw [latest?_visit_marginTop]
    by_cases hprev : Geometry.previous? tree id = some u
    · obtain ⟨p, hp, hnext⟩ := (Geometry.previous?_eq_some_iff hwell).1 hprev
      rw [if_pos hprev, hp, Option.bind_some, hnext, Option.bind_some,
        if_pos rfl]
    · rw [if_neg hprev, Option.bind_eq_none_iff]
      intro p hp
      rw [Option.bind_eq_none_iff]
      intro next hnext
      rw [if_neg]
      rintro rfl
      exact hprev ((Geometry.previous?_eq_some_iff hwell).2 ⟨p, hp, hnext⟩)
  -- only the visit of the peer before can speak, and it takes place
  rw [latest?_flatMap_of_speaker (Geometry.previous? tree id)]
  · unfold Geometry.marginTop?
    apply Option.bind_congr
    intro u hprev
    rw [hvisit, if_pos hprev]
    rfl
  · intro u hprev
    obtain ⟨p, hp, -⟩ := (Geometry.previous?_eq_some_iff hwell).1 hprev
    exact horder.complete u (hwell.isAttached_of_parentId?
      (ElementTree.parentId?_of_normalParent? hp)).1
  · intro u _ hsilent
    rw [hvisit, if_neg hsilent]

/-- An element is padded by its first child, the only one that has nothing
before it. -/
theorem latest?_run_paddingTop (hwell : tree.WellFormed root)
    (horder : VisitOrder tree ids) :
    latest? (ids.flatMap (visitWrites tree)) id "padding-top"
      = Geometry.paddingTop? tree id := by
  rw [latest?_flatMap_of_speaker (Geometry.first? tree id)]
  · unfold Geometry.paddingTop? Geometry.headroom?
    rw [Option.map_bind]
    apply Option.bind_congr
    intro u hu
    obtain ⟨hp, hfirst⟩ := (Geometry.first?_eq_some_iff hwell).1 hu
    rw [latest?_visit_paddingTop, hp, Option.bind_some, if_pos rfl, offset?]
    simp only [hfirst, true_and]
    rfl
  · intro u hu
    obtain ⟨hp, -⟩ := (Geometry.first?_eq_some_iff hwell).1 hu
    exact horder.complete u (hwell.isAttached_of_parentId?
      (ElementTree.parentId?_of_normalParent? hp)).1
  · intro u _ hsilent
    rw [latest?_visit_paddingTop, Option.bind_eq_none_iff]
    intro p hp
    by_cases hpid : p = id
    · subst hpid
      rw [if_pos rfl, offset?, if_neg]
      · rfl
      · intro hfirst
        exact hsilent ((Geometry.first?_eq_some_iff hwell).2
          ⟨hp, hfirst.1⟩)
    · rw [if_neg hpid]

-- =============================================================== height

/-- The height that the visit of an element gives it. -/
def ownHeight? (tree : ElementTree α) (id : ElementId) : Option String :=
  if (tree.parentId? id).isSome then
    some (px (tree.boundsAt id).height.toInt) else none

/-- Visits other than that of the first child leave the height as the
element's own visit had it. -/
theorem latest?_visits_height_of_later (hwell : tree.WellFormed root)
    {visits : List ElementId}
    (hlater : ∀ u ∈ visits, Geometry.first? tree id ≠ some u) :
    latest? (visits.flatMap (visitWrites tree)) id "height"
      = if id ∈ visits then ownHeight? tree id else none := by
  have hvisit : ∀ u ∈ visits,
      latest? (visitWrites tree u) id "height"
        = if u = id then ownHeight? tree u else none := by
    intro u hu
    apply latest?_visit_height_of_later
    intro hp hfirst
    exact hlater u hu ((Geometry.first?_eq_some_iff hwell).2 ⟨hp, hfirst⟩)
  by_cases hid : id ∈ visits
  · rw [if_pos hid, latest?_flatMap_of_only hid, hvisit id hid, if_pos rfl]
    intro u hu hne
    rw [hvisit u hu, if_neg hne]
  · rw [if_neg hid, latest?_flatMap_eq_none]
    intro u hu
    rw [hvisit u hu, if_neg]
    rintro rfl
    exact hid hu

/-- Differences of heights and places do not come near 64 bits. -/
theorem saturatingSub_toInt (a b c : Int32) :
    saturatingSub a.toInt (b.toInt - c.toInt)
      = a.toInt - (b.toInt - c.toInt) := by
  have halow := a.le_toInt
  have hahigh := a.toInt_lt
  have hblow := b.le_toInt
  have hbhigh := b.toInt_lt
  have hclow := c.le_toInt
  have hchigh := c.toInt_lt
  rw [saturatingSub, Int64.toInt_minValue, Int64.toInt_maxValue]
  omega

/-- What the first child makes of the height of its parent. -/
theorem padded_height {c : ElementId}
    (hfirst : Geometry.first? tree id = some c)
    (hprev : tree.prevInFlow? c = none)
    (hroot : tree.parentId? id = none → tree.valueOf? id "height" = none) :
    ((offset? tree c id).bind (paddedHeight? tree id)).or
        (ownHeight? tree id)
      = Geometry.height? tree id := by
  unfold Geometry.height? Geometry.headroom? offset? ownHeight?
  rw [hfirst, Option.bind_some]
  simp only [hprev, true_and]
  cases hparent : tree.parentId? id with
  | none =>
      -- the root has no height to take the padding from
      have hbase : baseHeight? tree id = none := by
        unfold baseHeight?
        rw [if_pos hparent, hroot hparent]
        rfl
      have hpadded : paddedHeight? tree id = fun _ => none := by
        funext offset
        unfold paddedHeight?
        rw [hbase]
        exact ite_self _
      rw [hpadded, Option.bind_fun_none]
      rfl
  | some q =>
      have hbase : baseHeight? tree id
          = some (tree.boundsAt id).height.toInt := by
        unfold baseHeight?
        rw [if_neg (by rw [hparent]; exact Option.some_ne_none q)]
      rw [if_neg (Option.some_ne_none q)]
      unfold paddedHeight?
      rw [hbase]
      by_cases hroom :
          (tree.boundsAt c).top - (tree.boundsAt id).top > 0
      · rw [if_pos hroom, Option.bind_some]
        cases tree.isPinned id "padding-top" with
        | true => rfl
        | false =>
            -- the difference of two words is not cut off
            have hexact := saturatingSub_toInt (tree.boundsAt id).height
              (tree.boundsAt c).y (tree.boundsAt id).y
            show some (px (max (saturatingSub _ _) 0)) = some (px _)
            rw [Bounds.top, Bounds.top, hexact]
            rfl
      · rw [if_neg hroom]
        exact (ite_self _).symm

/-- The height that a run gives an element: what the first child makes of
it, or else its own. -/
def spokenHeight? (tree : ElementTree α) (id : ElementId) : Option String :=
  ((Geometry.first? tree id).bind fun c =>
    (offset? tree c id).bind (paddedHeight? tree id)).or (ownHeight? tree id)

/-- The first child speaks about the height after the element itself. -/
theorem latest?_run_spokenHeight (hwell : tree.WellFormed root)
    (horder : VisitOrder tree ids) (hid : id ∈ ids) :
    latest? (ids.flatMap (visitWrites tree)) id "height"
      = spokenHeight? tree id := by
  unfold spokenHeight?
  cases hfirst : Geometry.first? tree id with
  | none =>
      -- without a first child nobody else speaks of it
      rw [latest?_visits_height_of_later hwell, if_pos hid]
      · rfl
      · intro u _
        rw [hfirst]
        exact (Option.some_ne_none u).symm
  | some c =>
      obtain ⟨hp, -⟩ := (Geometry.first?_eq_some_iff hwell).1 hfirst
      have hparent := ElementTree.parentId?_of_normalParent? hp
      -- the element itself was visited before its first child
      obtain ⟨before, after, rfl⟩ := List.append_of_mem
        (horder.complete c (hwell.isAttached_of_parentId? hparent).1)
      have hbefore := horder.parents_first before c after rfl id hparent
      obtain ⟨-, hnodup, hapart⟩ := List.nodup_append.1 horder.nodup
      have hfresh := (List.nodup_cons.1 hnodup).1
      have hnotafter : id ∉ after := fun hafter =>
        hapart id hbefore id (List.mem_cons_of_mem _ hafter) rfl
      have hne : c ≠ id := by
        rintro rfl
        exact hapart c hbefore c List.mem_cons_self rfl
      rw [List.flatMap_append, List.flatMap_cons, latest?_append,
        latest?_append, latest?_visits_height_of_later hwell,
        latest?_visits_height_of_later hwell, if_neg hnotafter,
        if_pos hbefore, Option.none_or, latest?_visit_height, hp,
        Option.bind_some, if_pos rfl, if_neg hne, Option.or_none]
      · rfl
      · intro u hu
        rw [hfirst]
        rintro heq
        cases heq
        exact hapart c hu c List.mem_cons_self rfl
      · intro u hu
        rw [hfirst]
        rintro heq
        cases heq
        exact hfresh hu

/-- A height is offered by the own visit of an element, and then by its
first child, less the padding. Parents are visited first, so the second one
counts. -/
theorem latest?_run_height (hwell : tree.WellFormed root)
    (horder : VisitOrder tree ids) (hid : id ∈ ids)
    (hroot : tree.parentId? id = none → tree.valueOf? id "height" = none) :
    latest? (ids.flatMap (visitWrites tree)) id "height"
      = Geometry.height? tree id := by
  rw [latest?_run_spokenHeight hwell horder hid, spokenHeight?]
  cases hfirst : Geometry.first? tree id with
  | none =>
      unfold ownHeight? Geometry.height? Geometry.headroom?
      rw [hfirst]
      cases tree.parentId? id with
      | none => rfl
      | some p => exact (ite_self _).symm
  | some c =>
      obtain ⟨-, hprev⟩ := (Geometry.first?_eq_some_iff hwell).1 hfirst
      exact padded_height hfirst hprev hroot

-- ============================================================= floating

/-- A visit makes an element float if it is one of two neighbours in flow
that are level, and the visit is that of the first one. -/
theorem visit_float_iff {u : ElementId} :
    latest? (visitWrites tree u) id "float" = some "left"
      ↔ ∃ p next, tree.normalParent? u = some p
        ∧ tree.nextInFlow? u = some next ∧ (u = id ∨ next = id)
        ∧ (tree.boundsAt next).top = (tree.boundsAt u).top := by
  rw [latest?_visit_float, Option.bind_eq_some_iff]
  constructor
  · rintro ⟨p, hp, hbind⟩
    obtain ⟨next, hnext, hsome⟩ := Option.bind_eq_some_iff.1 hbind
    split at hsome
    · next hone =>
      unfold level? at hsome
      split at hsome
      · next hlevel => exact ⟨p, next, hp, hnext, hone, hlevel⟩
      · cases hsome
    · cases hsome
  · rintro ⟨p, next, hp, hnext, hone, hlevel⟩
    refine ⟨p, hp, ?_⟩
    rw [hnext, Option.bind_some, if_pos hone, level?, if_pos hlevel]

/-- A visit that does not make an element float says nothing of it. -/
theorem visit_float_of_ne {u : ElementId}
    (h : latest? (visitWrites tree u) id "float" ≠ some "left") :
    latest? (visitWrites tree u) id "float" = none := by
  rw [latest?_visit_float] at h ⊢
  rw [Option.bind_eq_none_iff]
  intro p hp
  rw [Option.bind_eq_none_iff]
  intro next hnext
  rw [hp, Option.bind_some, hnext, Option.bind_some] at h
  unfold level? at h ⊢
  split
  · next hone =>
    rw [if_pos hone] at h
    split
    · next hlevel =>
      rw [if_pos hlevel] at h
      exact absurd rfl h
    · rfl
  · rfl

/-- Some visit makes an element float exactly if the element has a level
peer: a level peer anywhere in flow means a level neighbour. -/
theorem exists_visit_float_iff (hwell : tree.WellFormed root)
    (horder : VisitOrder tree ids) (id : ElementId) :
    (∃ u ∈ ids, latest? (visitWrites tree u) id "float" = some "left")
      ↔ ∃ p, tree.normalParent? id = some p
        ∧ ∃ i ∈ tree.childrenOf p, i ≠ id
          ∧ (tree.boundsAt i).top = (tree.boundsAt id).top := by
  have hneighbour : ∀ p, tree.normalParent? id = some p →
      ((∃ i ∈ tree.childrenOf p, i ≠ id
          ∧ (tree.boundsAt i).top = (tree.boundsAt id).top)
        ↔ (∃ i, [id, i] <:+: tree.flow p
            ∧ (tree.boundsAt i).top = (tree.boundsAt id).top)
          ∨ ∃ i, [i, id] <:+: tree.flow p
            ∧ (tree.boundsAt i).top = (tree.boundsAt id).top) := by
    intro p hp
    have hmem := hwell.mem_flow_iff.2
      (ElementTree.parentId?_of_normalParent? hp)
    rw [← ElementTree.exists_same_key_iff (fun i => (tree.boundsAt i).top)
      (tree.flow_top_le p) (hwell.flow_nodup p) hmem]
    simp only [ElementTree.mem_flow]
  constructor
  · rintro ⟨u, -, hu⟩
    obtain ⟨p, next, hp, hnext, hone, hlevel⟩ := visit_float_iff.1 hu
    have hparent := ElementTree.parentId?_of_normalParent? hp
    have hpair := (hwell.nextInFlow?_eq_some_iff hparent).1 hnext
    rcases hone with rfl | rfl
    · exact ⟨p, hp, (hneighbour p hp).2 (Or.inl ⟨next, hpair, hlevel⟩)⟩
    · have hparent' := ((hwell.nextInFlow?_iff_prevInFlow? hparent).1
        hnext).1
      have hp' := (ElementTree.normalParent?_congr
        (hparent'.trans hparent.symm)).trans hp
      exact ⟨p, hp', (hneighbour p hp').2
        (Or.inr ⟨u, hpair, hlevel.symm⟩)⟩
  · rintro ⟨p, hp, hpeer⟩
    have hparent := ElementTree.parentId?_of_normalParent? hp
    have hvisited : ∀ u, tree.parentId? u = some p → u ∈ ids := fun u hu =>
      horder.complete u (hwell.isAttached_of_parentId? hu).1
    rcases (hneighbour p hp).1 hpeer with ⟨i, hpair, hlevel⟩
        | ⟨i, hpair, hlevel⟩
    · -- the neighbour comes after: the element's own visit speaks
      exact ⟨id, hvisited id hparent, visit_float_iff.2 ⟨p, i, hp,
        (hwell.nextInFlow?_eq_some_iff hparent).2 hpair, Or.inl rfl,
        hlevel⟩⟩
    · -- it comes before: the neighbour's visit speaks
      have hparenti := hwell.mem_flow_iff.1
        (hpair.subset List.mem_cons_self)
      have hpi := (ElementTree.normalParent?_congr
        (hparenti.trans hparent.symm)).trans hp
      exact ⟨i, hvisited i hparenti, visit_float_iff.2 ⟨p, id, hpi,
        (hwell.nextInFlow?_eq_some_iff hparenti).2 hpair, Or.inr rfl,
        hlevel.symm⟩⟩

/-- An element floats if some visit says so. That may be its own or that of
the peer before it, and both say the same, so it does not matter which one
is last. -/
theorem latest?_run_float (hwell : tree.WellFormed root)
    (horder : VisitOrder tree ids) :
    latest? (ids.flatMap (visitWrites tree)) id "float"
      = Geometry.float? tree id := by
  have hspoken := exists_visit_float_iff hwell horder id
  have hagree : ∀ u ∈ ids,
      latest? (visitWrites tree u) id "float" = none
        ∨ latest? (visitWrites tree u) id "float" = some "left" := by
    intro u _
    by_cases hu : latest? (visitWrites tree u) id "float" = some "left"
    · exact Or.inr hu
    · exact Or.inl (visit_float_of_ne hu)
  unfold Geometry.float?
  rcases latest?_flatMap_of_agree hagree with ⟨hnone, hsilent⟩
      | ⟨hsome, hspeaker⟩
  · rw [hnone]
    symm
    rw [Option.bind_eq_none_iff]
    intro p hp
    rw [if_neg]
    intro hpeer
    obtain ⟨u, hu, hspeaks⟩ := hspoken.2 ⟨p, hp, hpeer⟩
    rw [hsilent u hu] at hspeaks
    cases hspeaks
  · obtain ⟨p, hp, hpeer⟩ := hspoken.1 hspeaker
    rw [hsome, hp, Option.bind_some, if_pos hpeer]

-- ============================================================ the whole

/-- Layout has nothing to say of other properties. -/
theorem value?_of_not_mem {k : String} (hk : k ∉ properties) :
    Geometry.value? tree id k = none := by
  unfold Geometry.value?
  rw [List.lookup_eq_none_iff.2]
  · rfl
  · intro entry hentry
    have hkey : entry.1 ∈ properties := List.mem_map_of_mem hentry
    rw [bne_iff_ne]
    rintro rfl
    exact hk hkey

/-- Whatever a tree declares before layout, all visits together infer what
geometry says, but for heights. -/
theorem latest?_run_of_ne (hwell : tree.WellFormed root)
    (horder : VisitOrder tree ids) (hid : id ∈ ids) {k : String}
    (hheight : k ≠ "height") :
    latest? (ids.flatMap (visitWrites tree)) id k
      = Geometry.value? tree id k := by
  by_cases hk : k ∈ properties
  · simp only [properties, List.mem_cons, List.not_mem_nil, or_false] at hk
    rcases hk with rfl | rfl | rfl | rfl | rfl | rfl | rfl | rfl
    · exact latest?_run_background hid
    · exact latest?_run_width hid
    · exact absurd rfl hheight
    · exact latest?_run_marginLeft hid
    · exact latest?_run_marginRight hwell hid
    · exact latest?_run_marginTop hwell horder
    · exact latest?_run_paddingTop hwell horder
    · exact latest?_run_float hwell horder
  · rw [value?_of_not_mem hk]
    apply latest?_flatMap_eq_none
    intro u _
    exact latest?_visit_of_not_mem tree u id hk

/-- What all visits together infer is what geometry says. -/
theorem latest?_run (hwell : tree.WellFormed root)
    (horder : VisitOrder tree ids) (hid : id ∈ ids) {k : String}
    (hplain : tree.valueOf? id k = none) :
    latest? (ids.flatMap (visitWrites tree)) id k
      = Geometry.value? tree id k := by
  by_cases hheight : k = "height"
  · subst hheight
    exact latest?_run_height hwell horder hid fun _ => hplain
  · exact latest?_run_of_ne hwell horder hid hheight

/-- After layout in any order of visits, a property that had no value and
no pin has the value that geometry gives it. -/
theorem outcome (hwell : tree.WellFormed root)
    (horder : VisitOrder tree ids) (hid : tree.isAttached id = true)
    {k : String} (hfree : tree.isPinned id k = false)
    (hplain : tree.valueOf? id k = none) :
    (ids.foldl inferStyle tree).valueOf? id k
      = Geometry.value? tree id k := by
  obtain ⟨e, hget, -⟩ := ElementTree.isAttached_iff.1 hid
  have hlt := ElementTree.get?_isSome_iff.1 ⟨e, hget⟩
  rw [run_eq_carryOut hwell horder, valueOf?_carryOut hlt hfree,
    latest?_run hwell horder (horder.complete id hid) hplain, hplain,
    Option.or_none]

end Layout

variable {α : Type} [Layer α]

/-- Layout of a built tree: once every element below the root was visited
in the order of creation, the tree is the same but for the values of
properties that are not pinned, so that the attached elements are the same
ones, and each of their properties that is not pinned has the value, if
any, that the geometry of the final tree gives it. -/
theorem layout_eq_geometry {root : α} {built : BuiltTree α}
    (h : BuiltTree.build Metadata.builtin root = .ok built) :
    let final := (built.tree.descendants built.root).foldl
      Layout.inferStyle built.tree
    built.tree.Restyled final
      ∧ final.attached = built.tree.attached
      ∧ ∀ id e, final.get? id = some e → e.detached = false →
        ∀ k, e.style.isPinned k = false →
          e.style.get? k = Geometry.value? final id k := by
  intro final
  obtain ⟨below, -, hbuilt⟩ :=
    Construction.builtFrom Metadata.decorates_builtin h
  have hwell := hbuilt.wellFormed Metadata.decorates_builtin
  have horder := Layout.visitOrder_descendants hwell
  have hrestyled : built.tree.Restyled final := by
    show built.tree.Restyled
      ((built.tree.descendants built.root).foldl Layout.inferStyle built.tree)
    rw [Layout.run_eq_carryOut hwell horder]
    exact Layout.restyled_carryOut ..
  refine ⟨hrestyled, hrestyled.attached, ?_⟩
  intro id e hget hattached k hfree
  have hid : built.tree.isAttached id = true := by
    rw [← hrestyled.isAttached, ElementTree.isAttached_iff]
    exact ⟨e, hget, hattached⟩
  obtain ⟨e', hget', hattached'⟩ := ElementTree.isAttached_iff.1 hid
  have hpinned : built.tree.isPinned id k = false := by
    rw [← hrestyled.isPinned, ElementTree.isPinned, hget]
    exact hfree
  -- before layout a property that is not pinned has no value
  have hplain : built.tree.valueOf? id k = none := by
    rw [ElementTree.isPinned, hget'] at hpinned
    rw [ElementTree.valueOf?, hget']
    exact hbuilt.handWritten hget' hattached' k hpinned
  have hvalue := Layout.outcome hwell horder hid hpinned hplain
  rw [hrestyled.value?, ← hvalue]
  show _ = final.valueOf? id k
  rw [ElementTree.valueOf?, hget, Option.bind_some]

/-- Layout of the sample page. What stays of an absorbed layer is level with
the tagline beside it, so it floats, whereas the float of the tagline is
pinned. -/
theorem samplePage_layout :
    ∃ built, BuiltTree.build Metadata.builtin samplePage = .ok built
      ∧ ∃ final, final = (built.tree.descendants built.root).foldl
          Layout.inferStyle built.tree
        ∧ built.tree.Restyled final
        ∧ final.attached = built.tree.attached
        ∧ (∀ id e, final.get? id = some e → e.detached = false →
          ∀ k, e.style.isPinned k = false →
            e.style.get? k = Geometry.value? final id k)
        ∧ ∃ e, final.get? ⟨3⟩ = some e ∧ e.detached = false
          ∧ e.style.isPinned "float" = false
          ∧ e.style.get? "float" = some "left" := by
  obtain ⟨built, hbuilt⟩ : ∃ built,
    BuiltTree.build Metadata.builtin samplePage = .ok built := ⟨_, rfl⟩
  have hrun : (BuiltTree.build Metadata.builtin samplePage).toOption.map
      (fun built => ((built.tree.get? ⟨3⟩).map fun e =>
          (e.detached, e.style.isPinned "float"),
        Geometry.value? built.tree ⟨3⟩ "float"))
      = some (some (false, false), some "left") := by
    decide +kernel
  rw [hbuilt] at hrun
  obtain ⟨hfacts, hleft⟩ := Prod.mk.inj (Option.some.inj hrun)
  obtain ⟨e, hget, hfacts⟩ := Option.map_eq_some_iff.1 hfacts
  obtain ⟨hattached, hfree⟩ := Prod.mk.inj hfacts
  obtain ⟨hrestyled, hsame, hvalues⟩ := layout_eq_geometry hbuilt
  obtain ⟨e', hget', hstep⟩ := hrestyled.get? hget
  have hattached' : e'.detached = false := by
    rw [hstep.rule_only]
    exact hattached
  have hfree' := (hstep.isPinned "float").trans hfree
  refine ⟨built, hbuilt, _, rfl, hrestyled, hsame, hvalues, e', hget',
    hattached', hfree', ?_⟩
  rw [hvalues ⟨3⟩ e' hget' hattached' "float" hfree', hrestyled.value?]
  exact hleft

end LayerPage
