/-
Which trees of layers can be built, and what is said of the others. The
layers below a root need not be a finite tree: a layer may be its own
descendant, and it may say that it has more children than there are. What
a root unfolds to is a tree of positions, each a list of indices that
lead to a layer (`Layer.LiesAt`), and it may be infinite.

# Offences

A position is an offence if the layer there lies too deep, or if there
ought to be a layer and is none. No layer below an offence is looked at,
so there are finitely many of them even where the unfolding is infinite.
Positions in lexicographic order are positions in the order of a visit,
depth first, parents before children (`Construction.Precedes`); so the
first offence that a visit meets is the least one.

# The induction

`Reports` says that an outcome is the first offence, or that there is
none. One induction over the indices from some index on
(`reports_unfoldChildren`) gives the step from one level to the next, and
the levels do the rest (`reports_unfold`). A cycle has positions of every
length, hence an offence.
-/
import LayerPage.Proofs.Build.Unfolding

namespace LayerPage

variable {α : Type} [Layer α]

-- ============================================================= positions

namespace Layer

/-- Whether a layer is reached from another one by taking the children at
some indices, one after another. -/
inductive LiesAt : α → List Nat → α → Prop
  | here (layer : α) : LiesAt layer [] layer
  | inside {folder child layer : α} {index : Nat} {path : List Nat} :
      index < childCount folder → child? folder index = some child →
      LiesAt child path layer → LiesAt folder (index :: path) layer

/-- Whether some layer below a root, or the root itself, lies inside
itself. -/
def IsCyclic (root : α) : Prop :=
  ∃ path layer loop, LiesAt root path layer ∧ loop ≠ []
    ∧ LiesAt layer loop layer

/-- Ways in a tree of layers can be joined. -/
theorem LiesAt.append {root folder layer : α} {path further : List Nat}
    (h : LiesAt root path folder) (hbelow : LiesAt folder further layer) :
    LiesAt root (path ++ further) layer := by
  induction h with
  | here => exact hbelow
  | inside hindex hchild _ ih => exact .inside hindex hchild (ih hbelow)

/-- The way to a layer goes through the child that it begins with. -/
theorem LiesAt.inChild {folder child layer : α} {i : Nat} {path : List Nat}
    (h : LiesAt folder (i :: path) layer)
    (hchild : Layer.child? folder i = some child) :
    LiesAt child path layer := by
  cases h with
  | inside _ hother hlies =>
      cases hchild.symm.trans hother
      exact hlies

/-- One layer lies at a position. -/
theorem LiesAt.unique {root layer other : α} {path : List Nat}
    (h : LiesAt root path layer) (hother : LiesAt root path other) :
    other = layer := by
  induction h with
  | here =>
      cases hother
      rfl
  | inside _ hchild _ ih => exact ih (hother.inChild hchild)

/-- On the way to a layer there are layers. -/
theorem LiesAt.take {root layer : α} {path : List Nat}
    (h : LiesAt root path layer) (levels : Nat) :
    ∃ above, LiesAt root (path.take levels) above := by
  induction h generalizing levels with
  | here layer => exact ⟨layer, by rw [List.take_nil]; exact .here layer⟩
  | @inside folder child layer index path hindex hchild _ ih =>
      cases levels with
      | zero => exact ⟨folder, .here folder⟩
      | succ levels =>
          obtain ⟨above, habove⟩ := ih levels
          exact ⟨above, .inside hindex hchild habove⟩

/-- A child has what is below it in the forest that lists the children. -/
private theorem exists_isBelow_of_child? {layer child : α} {i : Nat}
    (hi : i < childCount layer) (hchild : child? layer i = some child)
    {n : Nat} (hn : n ≤ i) {forest : Forest α}
    (h : forest.ListsFrom layer n) :
    ∃ inner : Forest α, inner.IsBelow child
      ∧ ∀ l ∈ child :: inner.labels, l ∈ forest.labels := by
  induction forest generalizing n with
  | nil =>
      have hend : n = childCount layer := h
      omega
  | cons first below rest _ ihRest =>
      obtain ⟨hfirst, hbelow, hrest⟩ := h
      by_cases hfound : n = i
      · subst hfound
        cases hchild.symm.trans hfirst
        refine ⟨below, hbelow, fun l hl => ?_⟩
        exact (List.prefix_append (child :: below.labels) _).subset hl
      · obtain ⟨inner, hinner, hmem⟩ := ihRest (by omega) hrest
        refine ⟨inner, hinner, fun l hl => ?_⟩
        exact List.mem_cons_of_mem _ (List.mem_append_right _ (hmem l hl))

/-- Whatever lies below a root is in the forest of all that is below it. -/
theorem LiesAt.mem_labels {root layer : α} {path : List Nat}
    (h : LiesAt root path layer) {below : Forest α}
    (hbelow : below.IsBelow root) : layer ∈ root :: below.labels := by
  induction h generalizing below with
  | here => exact List.mem_cons_self
  | inside hindex hchild _ ih =>
      obtain ⟨inner, hinner, hmem⟩ :=
        exists_isBelow_of_child? hindex hchild (Nat.zero_le _) hbelow
      exact List.mem_cons_of_mem _ (hmem _ (ih hinner))

/-- Round a cycle there is always a longer way. -/
theorem IsCyclic.exists_liesAt {root : α} (h : IsCyclic root)
    (levels : Nat) : ∃ path layer, LiesAt root path layer
      ∧ path.length = levels := by
  obtain ⟨path, layer, loop, hpath, hne, hloop⟩ := h
  have hround : ∀ times, ∃ way, LiesAt root way layer
      ∧ times ≤ way.length := by
    intro times
    induction times with
    | zero => exact ⟨path, hpath, Nat.zero_le _⟩
    | succ times ih =>
        obtain ⟨way, hway, hlength⟩ := ih
        have hpos := List.length_pos_iff.2 hne
        refine ⟨way ++ loop, hway.append hloop, ?_⟩
        rw [List.length_append]
        omega
  obtain ⟨way, hway, hlength⟩ := hround levels
  obtain ⟨above, habove⟩ := hway.take levels
  exact ⟨_, above, habove, List.length_take_of_le hlength⟩

end Layer

open Layer (LiesAt IsCyclic)

namespace Construction

-- ============================================================== offences

/-- What is wrong at a position below a root, where a number of levels are
allowed: the layer there lies below them, or a layer above them has no
child there, but says it has. -/
inductive Offence (levels : Nat) (root : α) : List Nat → Fault → Prop
  | tooDeep {path : List Nat} {layer : α} :
      LiesAt root path layer → path.length = levels →
      Offence levels root path (.tooDeep (Layer.name layer) maxDepth)
  | missing {path : List Nat} {layer : α} {index : Nat} :
      LiesAt root path layer → path.length < levels →
      index < Layer.childCount layer → Layer.child? layer index = none →
      Offence levels root (path ++ [index])
        (.missingChild (Layer.name layer) (Layer.childCount layer) index)

/-- Whether a position is visited before another one: before those below
it, and before those at a later index and below them. -/
def Precedes (path other : List Nat) : Prop :=
  List.Lex (· < ·) path other

/-- Whether a position is the first offence of all. -/
def IsFirst (offends : List Nat → Fault → Prop) (path : List Nat)
    (fault : Fault) : Prop :=
  offends path fault
    ∧ ∀ other fault', offends other fault' → ¬Precedes other path

/-- Whether an outcome is a fault exactly if there are offences, and then
that of the first one. -/
def Reports {β : Type} (offends : List Nat → Fault → Prop) :
    Except Fault β → Prop
  | .ok _ => ∀ path fault, ¬offends path fault
  | .error fault => ∃ path, IsFirst offends path fault

/-- Every offence is a fault of the layer tree. -/
theorem Offence.kind {levels : Nat} {root : α} {path : List Nat}
    {fault : Fault} (h : Offence levels root path fault) :
    fault.kind = .layerTree := by
  cases h with
  | tooDeep => rfl
  | missing => rfl

/-- Where no level is left the layer itself is the only offence. -/
theorem offence_zero_iff {root : α} {path : List Nat} {fault : Fault} :
    Offence 0 root path fault
      ↔ path = [] ∧ fault = .tooDeep (Layer.name root) maxDepth := by
  constructor
  · intro h
    cases h with
    | tooDeep hlies hlength =>
        cases List.length_eq_zero_iff.1 hlength
        cases hlies
        exact ⟨rfl, rfl⟩
    | missing _ hlength => exact absurd hlength (Nat.not_lt_zero _)
  · rintro ⟨rfl, rfl⟩
    exact .tooDeep (.here root) rfl

/-- An offence below a layer is at one of its indices: the child there is
missing, or the offence is one of the child. -/
theorem offence_succ_iff {levels : Nat} {root : α} {path : List Nat}
    {fault : Fault} :
    Offence (levels + 1) root path fault
      ↔ ∃ index rest, path = index :: rest
        ∧ index < Layer.childCount root
        ∧ ((Layer.child? root index = none ∧ rest = []
            ∧ fault = .missingChild (Layer.name root)
              (Layer.childCount root) index)
          ∨ ∃ child, Layer.child? root index = some child
            ∧ Offence levels child rest fault) := by
  constructor
  · intro h
    cases h with
    | tooDeep hlies hlength =>
        cases hlies with
        | here => cases hlength
        | inside hindex hchild hbelow =>
            exact ⟨_, _, rfl, hindex, .inr ⟨_, hchild,
              .tooDeep hbelow (Nat.succ.inj hlength)⟩⟩
    | missing hlies hlength hmissing hnone =>
        cases hlies with
        | here => exact ⟨_, [], rfl, hmissing, .inl ⟨hnone, rfl, rfl⟩⟩
        | inside hindex hchild hbelow =>
            exact ⟨_, _, rfl, hindex, .inr ⟨_, hchild,
              .missing hbelow (Nat.lt_of_succ_lt_succ hlength) hmissing
                hnone⟩⟩
  · rintro ⟨index, rest, rfl, hindex, ⟨hnone, rfl, rfl⟩ | ⟨child, hchild, h⟩⟩
    · exact .missing (.here root) (Nat.succ_pos levels) hindex hnone
    · cases h with
      | tooDeep hlies hlength =>
          exact .tooDeep (.inside hindex hchild hlies)
            (congrArg Nat.succ hlength)
      | missing hlies hlength hmissing hnone =>
          exact .missing (.inside hindex hchild hlies)
            (Nat.succ_lt_succ hlength) hmissing hnone

/-- There is only one thing wrong at a position. -/
theorem Offence.unique {levels : Nat} {root : α} {path : List Nat}
    {fault fault' : Fault} (h : Offence levels root path fault)
    (h' : Offence levels root path fault') : fault = fault' := by
  induction levels generalizing root path with
  | zero => rw [(offence_zero_iff.1 h).2, (offence_zero_iff.1 h').2]
  | succ levels ih =>
      obtain ⟨index, rest, rfl, -, hcase⟩ := offence_succ_iff.1 h
      obtain ⟨index', rest', heq, -, hcase'⟩ := offence_succ_iff.1 h'
      cases heq
      rcases hcase with ⟨hnone, -, rfl⟩ | ⟨child, hchild, h⟩
      · rcases hcase' with ⟨-, -, rfl⟩ | ⟨child, hchild, -⟩
        · rfl
        · rw [hnone] at hchild
          cases hchild
      · rcases hcase' with ⟨hnone, -, -⟩ | ⟨child', hchild', h'⟩
        · rw [hnone] at hchild
          cases hchild
        · rw [hchild] at hchild'
          cases hchild'
          exact ih h h'

-- ============================================================= reporting

section Reports

variable {β γ : Type} {offends offends' : List Nat → Fault → Prop}

/-- What reports the first offence of one kind reports that of an
equivalent one. -/
theorem Reports.congr {outcome : Except Fault β}
    (h : Reports offends outcome)
    (hsame : ∀ path fault, offends path fault ↔ offends' path fault) :
    Reports offends' outcome := by
  have heq : offends = offends' := by
    funext path fault
    exact propext (hsame path fault)
  rw [← heq]
  exact h

/-- A result may be changed without changing what is reported. -/
theorem Reports.map {outcome : Except Fault β} (f : β → γ)
    (h : Reports offends outcome) : Reports offends (outcome.map f) := by
  cases outcome with
  | ok answer => exact h
  | error fault => exact h

/-- As long as only one thing is wrong at a position, the fault is that of
the first offence. -/
theorem Reports.eq_error_iff {outcome : Except Fault β}
    (h : Reports offends outcome)
    (hunique : ∀ path fault fault', offends path fault →
      offends path fault' → fault = fault') (fault : Fault) :
    outcome = .error fault ↔ ∃ path, IsFirst offends path fault := by
  constructor
  · rintro rfl
    exact h
  · rintro ⟨path, hpath, hleast⟩
    cases outcome with
    | ok answer => exact absurd hpath (h path fault)
    | error fault' =>
        obtain ⟨path', hpath', hleast'⟩ := h
        have hsame : path' = path := List.lex_trichotomous
          (fun _ _ hge hle => Nat.le_antisymm (Nat.not_lt.1 hle)
            (Nat.not_lt.1 hge))
          (hleast' path fault hpath) (hleast path' fault' hpath')
        rw [hsame] at hpath'
        rw [hunique path fault fault' hpath hpath']

end Reports

/-- An offence at the index of a child is one of that child. -/
theorem offence_cons_iff {levels : Nat} {layer child : α} {index : Nat}
    (hindex : index < Layer.childCount layer)
    (hchild : Layer.child? layer index = some child) {path : List Nat}
    {fault : Fault} :
    Offence (levels + 1) layer (index :: path) fault
      ↔ Offence levels child path fault := by
  rw [offence_succ_iff]
  constructor
  · rintro ⟨i, rest, heq, -, hcase⟩
    cases heq
    rcases hcase with ⟨hnone, -⟩ | ⟨child', hchild', h⟩
    · rw [hchild] at hnone
      cases hnone
    · rw [hchild] at hchild'
      cases hchild'
      exact h
  · exact fun h => ⟨index, path, rfl, hindex, .inr ⟨child, hchild, h⟩⟩

/-- The offences of a layer from an index on. -/
def OffenceFrom (levels : Nat) (layer : α) (index : Nat) (path : List Nat)
    (fault : Fault) : Prop :=
  Offence (levels + 1) layer path fault ∧ ∀ i ∈ path.head?, index ≤ i

theorem offenceFrom_cons {levels : Nat} {layer : α} {index : Nat}
    {path : List Nat} {fault : Fault}
    (h : Offence (levels + 1) layer (index :: path) fault) :
    OffenceFrom levels layer index (index :: path) fault := by
  refine ⟨h, ?_⟩
  rintro i ⟨⟩
  exact Nat.le_refl index

/-- An offence from an index on is at that index, or from the next one
on. -/
theorem offenceFrom_iff {levels : Nat} {layer : α} {index : Nat}
    {path : List Nat} {fault : Fault} :
    OffenceFrom levels layer index path fault
      ↔ (∃ rest, path = index :: rest
          ∧ Offence (levels + 1) layer (index :: rest) fault)
        ∨ OffenceFrom levels layer (index + 1) path fault := by
  constructor
  · rintro ⟨hoffence, hhead⟩
    obtain ⟨i, rest, rfl, -, -⟩ := offence_succ_iff.1 hoffence
    rcases Nat.eq_or_lt_of_le (hhead i rfl) with rfl | hlt
    · exact .inl ⟨rest, rfl, hoffence⟩
    · refine .inr ⟨hoffence, ?_⟩
      rintro j ⟨⟩
      exact hlt
  · rintro (⟨rest, rfl, hoffence⟩ | ⟨hoffence, hhead⟩)
    · exact offenceFrom_cons hoffence
    · exact ⟨hoffence, fun i hi => Nat.le_of_succ_le (hhead i hi)⟩

/-- What is wrong at a later index comes later. -/
theorem OffenceFrom.not_precedes {levels : Nat} {layer : α} {index : Nat}
    {path : List Nat} {fault : Fault}
    (h : OffenceFrom levels layer (index + 1) path fault)
    (other : List Nat) : ¬Precedes path (index :: other) := by
  obtain ⟨i, rest, rfl, -, -⟩ := offence_succ_iff.1 h.1
  have hlater : index < i := h.2 i rfl
  intro hbefore
  rcases List.cons_lex_cons_iff.1 hbefore with hlt | ⟨rfl, -⟩
  · exact Nat.lt_asymm hlt hlater
  · exact Nat.lt_irrefl _ hlater

/-- A position is the first from an index on if it is at that index and no
other one there comes before it. -/
theorem isFirst_cons {levels : Nat} {layer : α} {index : Nat}
    {path : List Nat} {fault : Fault}
    (h : Offence (levels + 1) layer (index :: path) fault)
    (hleast : ∀ rest fault',
      Offence (levels + 1) layer (index :: rest) fault' →
      ¬Precedes rest path) :
    IsFirst (OffenceFrom levels layer index) (index :: path) fault := by
  refine ⟨offenceFrom_cons h, ?_⟩
  intro other fault' hother
  rcases offenceFrom_iff.1 hother with ⟨rest, rfl, hrest⟩ | hlater
  · intro hbefore
    rcases List.cons_lex_cons_iff.1 hbefore with hlt | ⟨-, hinside⟩
    · exact Nat.lt_irrefl index hlt
    · exact hleast rest fault' hrest hinside
  · exact hlater.not_precedes path

/-- If each child alone is reported on, so are the children from an index
on. -/
theorem reports_unfoldChildren {below : α → Except Fault (Forest α)}
    {levels : Nat}
    (hbelow : ∀ child, Reports (Offence levels child) (below child))
    {layer : α} :
    ∀ {count index : Nat}, index + count = Layer.childCount layer →
      Reports (OffenceFrom levels layer index)
        (unfoldChildren below layer count index) := by
  intro count
  induction count with
  | zero =>
      rintro index hcount path fault ⟨hoffence, hhead⟩
      obtain ⟨i, rest, rfl, hi, -⟩ := offence_succ_iff.1 hoffence
      have hle := hhead i rfl
      omega
  | succ count ih =>
      intro index hcount
      have hindex : index < Layer.childCount layer := by omega
      rw [unfoldChildren]
      cases hchild : Layer.child? layer index with
      | none =>
          -- a missing child is an offence at its own index, before all
          -- others
          refine ⟨[index], isFirst_cons ?_ fun _ _ _ => List.not_lex_nil⟩
          exact .missing (.here layer) (Nat.succ_pos levels) hindex hchild
      | some child =>
          have hinside : ∀ path fault,
              Offence (levels + 1) layer (index :: path) fault
                ↔ Offence levels child path fault :=
            fun _ _ => offence_cons_iff hindex hchild
          have hreport := hbelow child
          simp only
          cases hb : below child with
          | error fault =>
              rw [hb] at hreport
              obtain ⟨path, hpath, hleast⟩ := hreport
              -- what the child reports is the first thing below its index
              refine ⟨index :: path, isFirst_cons ((hinside _ _).2 hpath) ?_⟩
              exact fun rest fault' h => hleast rest fault' ((hinside _ _).1 h)
          | ok forest =>
              -- nothing is wrong at this index, so all that is comes later
              rw [hb] at hreport
              have hlater : index + 1 + count = Layer.childCount layer := by
                omega
              refine ((ih hlater).congr ?_).map _
              intro path fault
              rw [@offenceFrom_iff _ _ _ _ index, or_iff_right]
              rintro ⟨rest, -, hrest⟩
              exact hreport rest fault ((hinside _ _).1 hrest)

/-- Unfolding a layer reports on it. -/
theorem reports_unfold (levels : Nat) (layer : α) :
    Reports (Offence levels layer) (unfold levels layer) := by
  induction levels generalizing layer with
  | zero =>
      refine ⟨[], offence_zero_iff.2 ⟨rfl, rfl⟩, ?_⟩
      intro other fault _
      exact List.not_lex_nil
  | succ levels ih =>
      refine (reports_unfoldChildren ih (Nat.zero_add _)).congr ?_
      intro path fault
      exact ⟨And.left, fun h => ⟨h, fun i _ => Nat.zero_le i⟩⟩

/-- And so does building, whatever the registry. -/
theorem reports_build (registry : MetadataRegistry α) (root : α) :
    Reports (Offence (maxDepth + 1) root)
      (BuiltTree.build registry root) := by
  have hreport := reports_unfold (maxDepth + 1) root
  unfold BuiltTree.build
  rw [addLayer_eq]
  cases hunfold : unfold (maxDepth + 1) root with
  | error fault =>
      rw [hunfold] at hreport
      exact hreport
  | ok below =>
      rw [hunfold] at hreport
      exact hreport

/-- There is no offence exactly if no layer lies too deep and none says
that it has a child it has not. -/
theorem no_offence_iff {root : α} :
    (∀ path fault, ¬Offence (maxDepth + 1) root path fault)
      ↔ ∀ path layer, LiesAt root path layer → path.length ≤ maxDepth
        ∧ ∀ index, index < Layer.childCount layer →
          (Layer.child? layer index).isSome = true := by
  constructor
  · intro hnone path layer hlies
    have hlength : path.length ≤ maxDepth := by
      rw [← Nat.not_lt]
      intro hdeep
      obtain ⟨above, habove⟩ := hlies.take (maxDepth + 1)
      exact hnone _ _ (.tooDeep habove (List.length_take_of_le hdeep))
    refine ⟨hlength, fun index hindex => ?_⟩
    rw [Option.isSome_iff_ne_none]
    intro hmissing
    exact hnone _ _ (.missing hlies (Nat.lt_succ_of_le hlength) hindex
      hmissing)
  · intro hall path fault h
    cases h with
    | tooDeep hlies hlength =>
        have hle := (hall _ _ hlies).1
        omega
    | missing hlies _ hindex hnone =>
        have hsome := (hall _ _ hlies).2 _ hindex
        rw [hnone] at hsome
        cases hsome

end Construction

open Construction (Offence Precedes IsFirst maxDepth)

-- ============================================================== building

/-- Building ends for every root, cyclic or not. It succeeds exactly if no
layer lies too deep and none says that it has a child it has not;
otherwise the fault is that of the first offence. A cyclic root is
rejected for its depth, unless a child is missing before that shows. -/
theorem build_outcome (registry : MetadataRegistry α) (root : α) :
    ((∃ built, BuiltTree.build registry root = .ok built)
        ↔ ∀ path layer, LiesAt root path layer → path.length ≤ maxDepth
          ∧ ∀ index, index < Layer.childCount layer →
            (Layer.child? layer index).isSome = true)
      ∧ (∀ fault, BuiltTree.build registry root = .error fault
        ↔ fault.kind = .layerTree
          ∧ ∃ path, IsFirst (Offence (maxDepth + 1) root) path fault)
      ∧ (IsCyclic root →
        (∀ path name count index,
          Offence (maxDepth + 1) root path
            (.missingChild name count index) →
          ∃ deep layer, LiesAt root deep layer
            ∧ deep.length = maxDepth + 1 ∧ Precedes deep path) →
        ∃ deep layer, LiesAt root deep layer ∧ deep.length = maxDepth + 1
          ∧ BuiltTree.build registry root
            = .error (.tooDeep (Layer.name layer) maxDepth)) := by
  have hreport := Construction.reports_build registry root
  have herror := hreport.eq_error_iff fun _ _ _ => Offence.unique
  refine ⟨?_, ?_, ?_⟩
  · rw [← Construction.no_offence_iff]
    constructor
    · rintro ⟨built, hbuilt⟩
      rw [hbuilt] at hreport
      exact hreport
    · intro hnone
      cases hbuild : BuiltTree.build registry root with
      | ok built => exact ⟨built, rfl⟩
      | error fault =>
          rw [hbuild] at hreport
          obtain ⟨path, hpath, -⟩ := hreport
          exact absurd hpath (hnone path fault)
  · intro fault
    rw [herror]
    constructor
    · rintro ⟨path, hfirst⟩
      exact ⟨hfirst.1.kind, path, hfirst⟩
    · exact And.right
  · -- a cycle is followed down to the level that is too deep
    intro hcyclic hearlier
    obtain ⟨way, layer, hway, hlength⟩ :=
      hcyclic.exists_liesAt (maxDepth + 1)
    cases hbuild : BuiltTree.build registry root with
    | ok built =>
        rw [hbuild] at hreport
        exact absurd (.tooDeep hway hlength) (hreport _ _)
    | error fault =>
        obtain ⟨path, hpath, hleast⟩ := (herror fault).1 hbuild
        cases hpath with
        | tooDeep hlies hdeep => exact ⟨path, _, hlies, hdeep, rfl⟩
        | missing hlies hlt hindex hnone =>
            -- a missing child is not first, with a layer too deep before it
            obtain ⟨deep, above, habove, hdeep, hbefore⟩ :=
              hearlier _ _ _ _ (.missing hlies hlt hindex hnone)
            exact absurd hbefore
              (hleast deep _ (.tooDeep habove hdeep))

/-- Two layers, each of which is the only child of the other one. -/
inductive RingLayer
  | outer
  | inner

instance : Layer RingLayer where
  name
    | .outer => "outer"
    | .inner => "inner"
  bounds _ := {}
  kind _ := .folder
  childCount _ := 1
  child?
    | .outer, 0 => some .inner
    | .inner, 0 => some .outer
    | _, _ => none
  sample? _ _ _ := none

/-- A ring of layers has no child missing, and is rejected for its
depth. -/
theorem ring_rejected :
    IsCyclic RingLayer.outer
      ∧ (∀ path name count index,
        ¬Offence (maxDepth + 1) RingLayer.outer path
          (.missingChild name count index))
      ∧ ∃ deep layer, LiesAt RingLayer.outer deep layer
        ∧ deep.length = maxDepth + 1
        ∧ BuiltTree.build Metadata.builtin RingLayer.outer
          = .error (.tooDeep (Layer.name layer) maxDepth) := by
  have hcyclic : IsCyclic RingLayer.outer :=
    ⟨[], .outer, [0, 0], .here _, List.cons_ne_nil _ _,
      .inside Nat.zero_lt_one rfl (.inside Nat.zero_lt_one rfl (.here _))⟩
  have hpresent : ∀ path name count index,
      ¬Offence (maxDepth + 1) RingLayer.outer path
        (.missingChild name count index) := by
    intro path name count index h
    cases h with
    | @missing _ layer index _ _ hindex hnone =>
        cases Nat.lt_one_iff.1 hindex
        cases layer with
        | outer => cases hnone
        | inner => cases hnone
  refine ⟨hcyclic, hpresent, ?_⟩
  apply (build_outcome Metadata.builtin RingLayer.outer).2.2 hcyclic
  intro path name count index h
  exact absurd h (hpresent path name count index)

end LayerPage
