/-
Paths by their segments. The operations on paths work on the text; what a
file system follows are the segments, so here each operation is stated for
these: a path in a directory has one segment more (`segments_within`), and
a parent has a front part of the segments (`Holds`).

# The two exceptions

The root and the empty path are written without any name, yet each of them
has one segment, the empty one. They are the last of all ancestors. So an
ancestor has either a front part of the segments or this one alone, and no
induction over ancestors goes on after that.
-/
import LayerPage.FilePath
import Mathlib.Data.List.DropRight

namespace LayerPage.FilePath

-- ================================================== splitting and joining

/-- Splitting at slashes is the splitting of the library. -/
theorem split_eq_splitOn (cs : List Char) : split cs = cs.splitOn '/' := by
  induction cs with
  | nil => rfl
  | cons c cs ih =>
      rw [split, List.splitOn_cons_eq_if_modifyHead, ih]
      simp only [beq_iff_eq]
      split
      · rfl
      · obtain ⟨segment, segments, hsplit⟩ :=
          List.exists_cons_of_ne_nil (List.splitOn_ne_nil '/' cs)
        rw [hsplit]
        rfl

theorem split_ne_nil (cs : List Char) : split cs ≠ [] := by
  rw [split_eq_splitOn]
  exact List.splitOn_ne_nil '/' cs

theorem split_append_cons (cs ds : List Char) :
    split (cs ++ '/' :: ds) = split cs ++ split ds := by
  simp only [split_eq_splitOn]
  exact List.splitOn_append_cons_self cs ds

theorem split_of_notMem {cs : List Char} (h : '/' ∉ cs) :
    split cs = [cs] := by
  rw [split_eq_splitOn]
  exact List.splitOn_eq_singleton h

/-- Joined segments are split into the same ones. -/
theorem split_join {segments : List Segment} (hne : segments ≠ [])
    (hslash : ∀ segment ∈ segments, '/' ∉ segment) :
    split (join segments) = segments := by
  rw [split_eq_splitOn]
  exact List.splitOn_intercalate '/' hslash hne

theorem notMem_of_mem_split {cs : List Char} {segment : Segment}
    (h : segment ∈ split cs) : '/' ∉ segment := by
  induction cs generalizing segment with
  | nil =>
      rw [split, List.mem_singleton] at h
      rw [h]
      exact List.not_mem_nil
  | cons c cs ih =>
      obtain ⟨first, rest, hsplit⟩ :=
        List.exists_cons_of_ne_nil (split_ne_nil cs)
      rw [split, hsplit] at h
      rw [hsplit] at ih
      split at h
      · rcases List.mem_cons.1 h with hempty | hmem
        · rw [hempty]
          exact List.not_mem_nil
        · exact ih hmem
      · rename_i hc
        rcases List.mem_cons.1 h with hfirst | hmem
        · rw [hfirst, List.mem_cons]
          intro hslash
          rcases hslash with hslash | hslash
          · exact hc hslash.symm
          · exact ih List.mem_cons_self hslash
        · exact ih (List.mem_cons_of_mem first hmem)

/-- The text of a path, the slash of an absolute path aside. -/
def body (path : FilePath) : List Char :=
  if path.isAbsolute then path.text.toList.tail else path.text.toList

/-- The segments of a path are those of its body. -/
theorem segments_eq_split (path : FilePath) :
    path.segments = split path.body := by
  unfold segments body isAbsolute
  split
  · rename_i cs hcs
    rw [hcs]
    rfl
  · rename_i hcs
    rw [if_neg]
    intro habsolute
    obtain ⟨cs, htext⟩ := List.head?_eq_some_iff.1 (eq_of_beq habsolute)
    exact hcs cs htext

theorem segments_ne_nil (path : FilePath) : path.segments ≠ [] := by
  rw [segments_eq_split]
  exact split_ne_nil _

/-- No segment of a path has a slash in it. -/
theorem notMem_of_mem_segments {path : FilePath} {segment : Segment}
    (h : segment ∈ path.segments) : '/' ∉ segment := by
  rw [segments_eq_split] at h
  exact notMem_of_mem_split h

/-- The first segment of a relative path is empty only if the path is. -/
theorem head?_segments_ne_nil {path : FilePath}
    (hrelative : path.isAbsolute = false) (hne : path.text ≠ "") :
    path.segments.head? ≠ some [] := by
  rw [segments_eq_split, body, hrelative, if_neg Bool.false_ne_true]
  unfold isAbsolute at hrelative
  cases hcs : path.text.toList with
  | nil => exact absurd (String.toList_eq_nil_iff.1 hcs) hne
  | cons c cs =>
      rw [hcs, List.head?_cons] at hrelative
      have hc : c ≠ '/' := by
        intro hslash
        rw [hslash] at hrelative
        cases hrelative
      obtain ⟨first, rest, hsplit⟩ :=
        List.exists_cons_of_ne_nil (split_ne_nil cs)
      rw [split, if_neg hc, hsplit, List.head?_cons]
      intro hempty
      cases hempty

/-- A relative path of one empty segment is the empty path. -/
theorem text_eq_empty {path : FilePath} (hrelative : path.isAbsolute = false)
    (h : path.segments = [[]]) : path.text = "" := by
  by_cases hne : path.text = ""
  · exact hne
  · refine absurd ?_ (head?_segments_ne_nil hrelative hne)
    rw [h]
    rfl

/-- A path that is made of segments is absolute just if it is meant to be:
its first segment must not be empty otherwise. -/
theorem isAbsolute_ofSegments {absolute : Bool} {segments : List Segment}
    (hslash : ∀ segment ∈ segments, '/' ∉ segment)
    (hhead : absolute = true ∨ segments.head? ≠ some []) :
    (ofSegments absolute segments).isAbsolute = absolute := by
  unfold ofSegments isAbsolute
  rw [String.toList_ofList]
  cases absolute with
  | true => rfl
  | false =>
      rw [if_neg Bool.false_ne_true, List.nil_append]
      cases segments with
      | nil => rfl
      | cons segment segments =>
          cases segment with
          | nil =>
              rcases hhead with htrue | hhead
              · cases htrue
              · exact absurd rfl hhead
          | cons c cs =>
              have hc : c ≠ '/' := by
                intro hslash'
                apply hslash _ List.mem_cons_self
                rw [hslash']
                exact List.mem_cons_self
              have hfirst : (join ((c :: cs) :: segments)).head? = some c := by
                cases segments with
                | nil => rfl
                | cons next rest => rfl
              rw [hfirst, beq_eq_false_iff_ne]
              intro hsome
              exact hc (Option.some.inj hsome)

/-- The segments that a path is made of are read back. -/
theorem segments_ofSegments {absolute : Bool} {segments : List Segment}
    (hne : segments ≠ [])
    (hslash : ∀ segment ∈ segments, '/' ∉ segment)
    (hhead : absolute = true ∨ segments.head? ≠ some []) :
    (ofSegments absolute segments).segments = segments := by
  rw [segments_eq_split, body, isAbsolute_ofSegments hslash hhead]
  have hbody : (if absolute then
      (ofSegments absolute segments).text.toList.tail
      else (ofSegments absolute segments).text.toList) = join segments := by
    unfold ofSegments
    rw [String.toList_ofList]
    cases absolute with
    | true => rfl
    | false => rfl
  rw [hbody, split_join hne hslash]

-- ============================================================== ancestors

/-- What is left without the silent end was in front of it. -/
theorem prefix_dropSilentEnd (segments : List Segment) :
    dropSilentEnd segments <+: segments :=
  List.rdropWhile_prefix isSilent segments

/-- Trimming takes segments away from the end alone. -/
theorem prefix_trim (absolute : Bool) (segments : List Segment) :
    trim absolute segments <+: segments := by
  unfold trim
  split
  · exact (List.prefix_cons_inj _).2 (prefix_dropSilentEnd _)
  · exact prefix_dropSilentEnd _

/-- What is left of a path after trimming is the beginning of its
segments. -/
theorem prefix_trimmed (path : FilePath) : path.trimmed <+: path.segments :=
  prefix_trim _ _

/-- An ancestor starts where a path starts, and has a front part of its
segments or the empty segment alone. -/
structure Holds (ancestor path : FilePath) : Prop where
  isAbsolute : ancestor.isAbsolute = path.isAbsolute
  segments : ancestor.segments <+: path.segments ∨ ancestor.segments = [[]]

theorem Holds.trans {a b c : FilePath} (h : a.Holds b) (h' : b.Holds c) :
    a.Holds c where
  isAbsolute := h.isAbsolute.trans h'.isAbsolute
  segments := by
    rcases h.segments with hfront | hempty
    · rcases h'.segments with hfront' | hempty'
      · exact .inl (hfront.trans hfront')
      · right
        rw [hempty'] at hfront
        have hlength := hfront.length_le
        have hpositive := List.length_pos_iff.2 a.segments_ne_nil
        exact hfront.eq_of_length (Nat.le_antisymm hlength hpositive)
    · exact .inr hempty

/-- A path with a parent has a segment to drop, and the parent is made of
those before it. -/
theorem parent?_eq_some {path parent : FilePath}
    (h : path.parent? = some parent) :
    path.trimmed ≠ [] ∧ parent = ofSegments path.isAbsolute
      (trim path.isAbsolute path.trimmed.dropLast) := by
  unfold parent? at h
  split at h
  · cases h
  · rename_i hne
    exact ⟨hne, (Option.some.inj h).symm⟩

/-- A path lies in its parent. -/
theorem holds_of_parent? {path parent : FilePath}
    (h : path.parent? = some parent) : parent.Holds path := by
  obtain ⟨htrimmed, hparent⟩ := parent?_eq_some h
  have hfront : trim path.isAbsolute path.trimmed.dropLast
      <+: path.segments :=
    (prefix_trim ..).trans
      (( List.dropLast_prefix _).trans path.prefix_trimmed)
  generalize trim path.isAbsolute path.trimmed.dropLast = front
    at hparent hfront
  have hslash : ∀ segment ∈ front, '/' ∉ segment := by
    intro segment hmem
    exact notMem_of_mem_segments (hfront.subset hmem)
  -- what is left of a relative path does not begin with a slash
  have hhead : path.isAbsolute = true ∨ front.head? ≠ some [] := by
    cases habsolute : path.isAbsolute with
    | true => exact .inl rfl
    | false =>
        right
        intro hempty
        obtain ⟨rest, hrest⟩ := hfront
        have hne : front ≠ [] := by
          intro hnil
          rw [hnil] at hempty
          cases hempty
        rw [← List.head?_append_of_ne_nil _ hne, hrest] at hempty
        refine absurd hempty (head?_segments_ne_nil habsolute ?_)
        intro htext
        apply htrimmed
        obtain ⟨text⟩ := path
        cases htext
        rfl
  rw [hparent]
  constructor
  · exact isAbsolute_ofSegments hslash hhead
  · by_cases hne : front = []
    · right
      rw [hne]
      cases path.isAbsolute with
      | true => rfl
      | false => rfl
    · left
      rw [segments_ofSegments hne hslash hhead]
      exact hfront

/-- Each ancestor of a path holds it: by induction on how many are asked
for, since the next ones are those of the parent. -/
theorem holds_of_mem_ancestors {path ancestor : FilePath}
    (h : ancestor ∈ path.ancestors) : ancestor.Holds path := by
  unfold ancestors at h
  generalize path.segments.length = count at h
  induction count generalizing path with
  | zero => exact absurd h List.not_mem_nil
  | succ count ih =>
      unfold ancestorsWithin at h
      split at h
      · exact absurd h List.not_mem_nil
      · rename_i parent hparent
        have hholds := holds_of_parent? hparent
        rcases List.mem_cons.1 h with hself | hmem
        · rw [hself]
          exact hholds
        · exact (ih hmem).trans hholds

-- ===================================================== within a directory

theorem toList_ne_nil {text : String} (hne : text ≠ "") :
    text.toList ≠ [] := by
  intro hnil
  exact hne (String.toList_eq_nil_iff.1 hnil)

theorem isAbsolute_append {text more : String} (hne : text ≠ "") :
    (⟨text ++ more⟩ : FilePath).isAbsolute
      = (⟨text⟩ : FilePath).isAbsolute := by
  unfold isAbsolute
  rw [String.toList_append, List.head?_append_of_ne_nil _ (toList_ne_nil hne)]

theorem body_append {text more : String} (hne : text ≠ "") :
    (⟨text ++ more⟩ : FilePath).body
      = (⟨text⟩ : FilePath).body ++ more.toList := by
  unfold body
  rw [isAbsolute_append hne, String.toList_append]
  split
  · exact List.tail_append_of_ne_nil (toList_ne_nil hne)
  · rfl

/-- Nothing is put in front of a path in the empty directory. -/
theorem within_of_text_eq_empty {directory path : FilePath}
    (h : directory.text = "") : directory.within path = path := by
  unfold within
  rw [h, String.empty_append]
  exact ite_self path

/-- A relative path in a directory is absolute if the directory is. -/
theorem isAbsolute_within {directory path : FilePath}
    (hpath : path.isAbsolute = false) :
    (directory.within path).isAbsolute = directory.isAbsolute := by
  by_cases hne : directory.text = ""
  · rw [within_of_text_eq_empty hne, hpath]
    obtain ⟨text⟩ := directory
    cases hne
    rfl
  · unfold within
    rw [hpath, if_neg Bool.false_ne_true]
    split
    · exact isAbsolute_append hne
    · rw [String.append_assoc]
      exact isAbsolute_append hne

/-- What stands before a slash at the end, the one of the root aside. -/
theorem body_of_getLast? {path : FilePath}
    (h : path.text.toList.getLast? = some '/') :
    path.body = [] ∨ ∃ front, path.body = front ++ ['/'] := by
  have hsuffix : path.body <:+ path.text.toList := by
    unfold body
    split
    · exact List.tail_suffix _
    · exact List.suffix_refl _
  by_cases hne : path.body = []
  · exact .inl hne
  · right
    obtain ⟨before, hbefore⟩ := hsuffix
    rw [← hbefore, List.getLast?_append_of_ne_nil _ hne] at h
    obtain ⟨front, hfront⟩ := List.getLast?_eq_some_iff.1 h
    exact ⟨front, hfront⟩

/-- A name without a slash is relative. -/
theorem isAbsolute_of_notMem {path : FilePath}
    (h : '/' ∉ path.text.toList) : path.isAbsolute = false := by
  unfold isAbsolute
  rw [beq_eq_false_iff_ne]
  intro hhead
  exact h (List.mem_of_head? hhead)

/-- A name without a slash is its only segment. -/
theorem segments_of_notMem {path : FilePath} (h : '/' ∉ path.text.toList) :
    path.segments = [path.text.toList] := by
  rw [segments_eq_split, body, isAbsolute_of_notMem h,
    if_neg Bool.false_ne_true, split_of_notMem h]

/-- A name in a directory is one segment more. A slash at the end of the
directory's text is the one before the name. -/
theorem segments_within_of_ne {directory path : FilePath}
    (hname : '/' ∉ path.text.toList) (hne : directory.text ≠ "") :
    ∃ front, (directory.within path).segments = front ++ [path.text.toList]
      ∧ (directory.segments = front
        ∨ directory.segments = front ++ [[]]) := by
  have hempty : directory.text.toList.isEmpty = false :=
    List.isEmpty_eq_false_iff.2 (toList_ne_nil hne)
  simp only [segments_eq_split]
  unfold within
  rw [isAbsolute_of_notMem hname, if_neg Bool.false_ne_true, hempty,
    Bool.or_false]
  split
  · rename_i hslash
    rw [body_append hne]
    rcases body_of_getLast? (eq_of_beq hslash) with hroot | ⟨front, hfront⟩
    · refine ⟨[], ?_, .inr ?_⟩
      · rw [hroot]
        exact split_of_notMem hname
      · rw [hroot]
        rfl
    · refine ⟨split front, ?_, .inr ?_⟩
      · rw [hfront, List.append_assoc, List.singleton_append,
          split_append_cons, split_of_notMem hname]
      · rw [hfront, split_append_cons]
        rfl
  · refine ⟨split directory.body, ?_, .inl rfl⟩
    rw [String.append_assoc, body_append hne, String.toList_append]
    have hsingle : "/".toList ++ path.text.toList
      = '/' :: path.text.toList := rfl
    rw [hsingle, split_append_cons, split_of_notMem hname]

/-- In the directory of the empty path a name stands alone. -/
theorem segments_within {directory path : FilePath}
    (hname : '/' ∉ path.text.toList) :
    ∃ front, (directory.within path).segments = front ++ [path.text.toList]
      ∧ ((directory.text = "" ∧ front = []) ∨ directory.text ≠ ""
        ∧ (directory.segments = front
          ∨ directory.segments = front ++ [[]])) := by
  by_cases hempty : directory.text = ""
  · refine ⟨[], ?_, .inl ⟨hempty, rfl⟩⟩
    rw [within_of_text_eq_empty hempty]
    exact segments_of_notMem hname
  · obtain ⟨front, hsegments, hfront⟩ :=
      segments_within_of_ne hname hempty
    exact ⟨front, hsegments, .inr ⟨hempty, hfront⟩⟩

end LayerPage.FilePath
