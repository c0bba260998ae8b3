/-
What changes in a file system, and where paths lead before and after.

# What carries over

A path is followed through directories and looks at nothing else, so it
leads to the same place wherever these are still directories
(`walk_mono`). Making a directory only adds one, and a file is written
where no directory is. That is all that is needed to speak of a place
before and after by the path that leads to it now.

# Making directories

A directory is made with those above it by going up until one can be made
and then down again. `Grows` is what holds of each way through this: all
that was there is still there, and what is new is a directory at the end of
one of the paths. It is transitive, so the way down adds up
(`grows_makeChain`).
-/
import LayerPage.FileSystem
import LayerPage.Proofs.FilePath

namespace LayerPage.FileSystem

variable {files files' : FileSystem} {directory place : Location}
  {path : FilePath}

-- ================================================================= places

/-- Taking away what is at one place does not change another one. -/
theorem lookup_filter_ne {nodes : List (Location × FileNode)}
    {place other : Location} (hne : other ≠ place) :
    (nodes.filter (·.1 != place)).lookup other = nodes.lookup other := by
  induction nodes with
  | nil => rfl
  | cons entry nodes ih =>
      obtain ⟨key, node⟩ := entry
      by_cases hkey : key = place
      · rw [List.filter_cons_of_neg (by simp [hkey]), ih, List.lookup_cons]
        rw [beq_false_of_ne (hkey ▸ hne)]
      · rw [List.filter_cons_of_pos (by simp [hkey]), List.lookup_cons,
          List.lookup_cons, ih]

/-- Whatever is no directory is not the root. -/
theorem ne_nil_of_node? (h : files.node? place ≠ some .directory) :
    place ≠ [] := by
  intro hroot
  rw [hroot] at h
  exact h rfl

/-- What is put at a place is found there, and elsewhere what was there
before. -/
theorem node?_put (hplace : place ≠ []) (node : FileNode)
    (other : Location) :
    (files.put place node).node? other
      = if other = place then some node else files.node? other := by
  cases other with
  | nil => exact (if_neg (Ne.symm hplace)).symm
  | cons name above =>
      unfold node? put
      simp only [List.lookup_cons]
      by_cases hother : name :: above = place
      · rw [beq_iff_eq.2 hother, if_pos hother]
      · rw [beq_false_of_ne hother, if_neg hother, lookup_filter_ne hother]

/-- Where no directory is, something can be put, and directories stay
directories. -/
theorem node?_put_of_directory {node : FileNode} {other : Location}
    (hfree : files.node? place ≠ some .directory)
    (h : files.node? other = some .directory) :
    (files.put place node).node? other = some .directory := by
  rw [node?_put (ne_nil_of_node? hfree), if_neg, h]
  intro hsame
  exact hfree (hsame ▸ h)

theorem node?_ne_of_missing (h : files.node? place = none) :
    files.node? place ≠ some .directory := by
  rw [h]
  exact (Option.some_ne_none _).symm

-- ======================================================== following paths

/-- A step is only taken from a directory. -/
theorem node?_of_step {segment : FilePath.Segment} {next : Location}
    (h : files.step place segment = .ok next) :
    files.node? place = some .directory := by
  unfold step at h
  split at h
  · cases h
  · cases h
  · assumption

/-- A step depends on what is at its start alone. -/
theorem step_congr (h : files'.node? place = files.node? place)
    (segment : FilePath.Segment) :
    files'.step place segment = files.step place segment := by
  unfold step
  rw [h]

/-- A silent segment leads nowhere else. -/
theorem step_of_isSilent (h : files.node? place = some .directory)
    {segment : FilePath.Segment} (hsilent : FilePath.isSilent segment = true) :
    files.step place segment = .ok place := by
  unfold step
  rw [h]
  exact if_pos hsilent

/-- A segment that says something and does not lead back is a name. -/
theorem step_eq_cons {segment : FilePath.Segment} {next : Location}
    (h : files.step place segment = .ok next)
    (hspoken : FilePath.isSilent segment = false)
    (hback : segment ≠ ['.', '.']) : next = segment :: place := by
  unfold step at h
  rw [node?_of_step h] at h
  simp only at h
  rw [hspoken, if_neg Bool.false_ne_true, if_neg hback] at h
  split at h
  · exact (Except.ok.inj h).symm
  · cases h

theorem walk_singleton (place : Location) (segment : FilePath.Segment) :
    files.walk place [segment] = files.step place segment := by
  rw [walk]
  cases files.step place segment with
  | error obstacle => rfl
  | ok next => rfl

theorem walk_append (start : Location)
    (front rest : List FilePath.Segment) :
    files.walk start (front ++ rest)
      = match files.walk start front with
        | .error obstacle => .error obstacle
        | .ok place => files.walk place rest := by
  induction front generalizing start with
  | nil => rfl
  | cons segment front ih =>
      rw [List.cons_append, walk, walk]
      cases files.step start segment with
      | error obstacle => rfl
      | ok next => exact ih next

/-- A path that is followed to its end is followed to each place on the
way, and there is a directory at each before the last. -/
theorem exists_walk_of_append {start : Location}
    {front rest : List FilePath.Segment}
    (h : files.walk start (front ++ rest) = .ok place) :
    ∃ middle, files.walk start front = .ok middle
      ∧ files.walk middle rest = .ok place
      ∧ (rest ≠ [] → files.node? middle = some .directory) := by
  rw [walk_append] at h
  cases hfront : files.walk start front with
  | error obstacle =>
      rw [hfront] at h
      cases h
  | ok middle =>
      rw [hfront] at h
      refine ⟨middle, rfl, h, ?_⟩
      intro hne
      obtain ⟨segment, rest, rfl⟩ := List.exists_cons_of_ne_nil hne
      simp only [walk] at h
      cases hstep : files.step middle segment with
      | error obstacle =>
          rw [hstep] at h
          cases h
      | ok next => exact node?_of_step hstep

/-- Silent segments lead nowhere else, however many. -/
theorem walk_of_isSilent (h : files.node? place = some .directory)
    {segments : List FilePath.Segment}
    (hsilent : ∀ segment ∈ segments, FilePath.isSilent segment = true) :
    files.walk place segments = .ok place := by
  induction segments with
  | nil => rfl
  | cons segment segments ih =>
      obtain ⟨hfirst, hrest⟩ := List.forall_mem_cons.1 hsilent
      rw [walk, step_of_isSilent h hfirst]
      exact ih hrest

/-- A path leads to the same place as long as directories stay
directories. -/
theorem walk_mono
    (hdirectories : ∀ place, files.node? place = some .directory →
      files'.node? place = some .directory)
    {start : Location} {segments : List FilePath.Segment}
    (h : files.walk start segments = .ok place) :
    files'.walk start segments = .ok place := by
  induction segments generalizing start with
  | nil => exact h
  | cons segment segments ih =>
      rw [walk] at h ⊢
      cases hstep : files.step start segment with
      | error obstacle =>
          rw [hstep] at h
          cases h
      | ok next =>
          rw [hstep] at h
          have hnode := node?_of_step hstep
          rw [step_congr ((hdirectories start hnode).trans hnode.symm), hstep]
          exact ih h

/-- A path that is not empty is walked from where it starts. -/
theorem locate_of_text_ne (h : path.text ≠ "") :
    files.locate directory path
      = files.walk (start directory path) path.segments := by
  unfold locate
  rw [if_neg]
  rw [String.isEmpty_iff]
  exact h

/-- The empty path leads nowhere. -/
theorem text_ne_of_locate (h : files.locate directory path = .ok place) :
    path.text ≠ "" := by
  intro hempty
  unfold locate at h
  rw [if_pos (String.isEmpty_iff.2 hempty)] at h
  cases h

/-- A path leads to the same place as long as no directory goes away. -/
theorem locate_mono
    (hdirectories : ∀ place, files.node? place = some .directory →
      files'.node? place = some .directory)
    (h : files.locate directory path = .ok place) :
    files'.locate directory path = .ok place := by
  have hne := text_ne_of_locate h
  rw [locate_of_text_ne hne] at h ⊢
  exact walk_mono hdirectories h

/-- What is found by a path is what is at its place. -/
theorem find?_eq_some_iff {node : FileNode} :
    files.find? directory path = some node
      ↔ ∃ place, files.locate directory path = .ok place
        ∧ files.node? place = some node := by
  unfold find?
  cases files.locate directory path with
  | error obstacle => simp
  | ok place => simp

/-- A directory that is found is found again as long as none goes away. -/
theorem find?_mono
    (hdirectories : ∀ place, files.node? place = some .directory →
      files'.node? place = some .directory)
    (h : files.find? directory path = some .directory) :
    files'.find? directory path = some .directory := by
  rw [find?_eq_some_iff] at h ⊢
  obtain ⟨place, hlocate, hnode⟩ := h
  exact ⟨place, locate_mono hdirectories hlocate, hdirectories place hnode⟩

/-- What holds a directory is a directory. -/
theorem find?_of_holds {ancestor : FilePath} (h : ancestor.Holds path)
    (hne : ancestor.text ≠ "")
    (hpath : files.find? directory path = some .directory) :
    files.find? directory ancestor = some .directory := by
  rw [find?_eq_some_iff] at hpath ⊢
  obtain ⟨place, hlocate, hnode⟩ := hpath
  rw [locate_of_text_ne (text_ne_of_locate hlocate)] at hlocate
  have hstart : start directory ancestor = start directory path := by
    unfold start
    rw [h.isAbsolute]
  rw [locate_of_text_ne hne, hstart]
  rcases h.segments with hfront | hempty
  · obtain ⟨rest, hrest⟩ := hfront
    rw [← hrest] at hlocate
    obtain ⟨middle, hmiddle, hwalk, hinside⟩ :=
      exists_walk_of_append hlocate
    refine ⟨middle, hmiddle, ?_⟩
    -- a walk goes on from directories only
    by_cases hlast : rest = []
    · rw [hlast] at hwalk
      cases hwalk
      exact hnode
    · exact hinside hlast
  · -- the root, since the empty path is left out
    have habsolute : path.isAbsolute = true := by
      rw [← h.isAbsolute, ← Bool.not_eq_false]
      intro hrelative
      exact hne (FilePath.text_eq_empty hrelative hempty)
    refine ⟨[], ?_, rfl⟩
    rw [hempty]
    unfold start
    rw [if_pos habsolute]
    rfl

-- ===================================================== making directories

/-- What is new in a file system are directories at the end of some paths.
The empty path makes none. -/
structure Grows (directory : Location) (paths : List FilePath)
    (before after : FileSystem) : Prop where
  kept : ∀ place node, before.node? place = some node →
    after.node? place = some node
  added : ∀ place node, before.node? place = none →
    after.node? place = some node → node = .directory
      ∧ ∃ path ∈ paths, after.locate directory path = .ok place

namespace Grows

variable {paths paths' : List FilePath} {before middle after : FileSystem}

theorem refl (directory : Location) (paths : List FilePath)
    (files : FileSystem) : Grows directory paths files files where
  kept _ _ h := h
  added _ _ hnone hsome := by
    rw [hnone] at hsome
    cases hsome

/-- What was located before files grew is located afterwards. -/
theorem locate (h : Grows directory paths before after)
    (hlocate : before.locate directory path = .ok place) :
    after.locate directory path = .ok place :=
  locate_mono (fun place => h.kept place .directory) hlocate

theorem trans (h : Grows directory paths before middle)
    (h' : Grows directory paths middle after) :
    Grows directory paths before after where
  kept place node hbefore := h'.kept place node (h.kept place node hbefore)
  added place node hnone hafter := by
    cases hmiddle : middle.node? place with
    | none => exact h'.added place node hmiddle hafter
    | some other =>
        have hsame := h'.kept place other hmiddle
        rw [hafter] at hsame
        cases hsame
        obtain ⟨hdirectory, path, hmem, hlocate⟩ :=
          h.added place node hnone hmiddle
        exact ⟨hdirectory, path, hmem, h'.locate hlocate⟩

theorem mono (h : Grows directory paths before after)
    (hsub : paths ⊆ paths') : Grows directory paths' before after where
  kept := h.kept
  added place node hnone hsome := by
    obtain ⟨hdirectory, path, hmem, hlocate⟩ := h.added place node hnone hsome
    exact ⟨hdirectory, path, hsub hmem, hlocate⟩

end Grows

/-- A directory is made where nothing was, and its path leads there then:
slashes at the end lead nowhere else. -/
theorem makeDirectory_eq_ok (hne : path.text ≠ "")
    (h : files.makeDirectory directory path = .ok files') :
    ∃ place, files.node? place = none ∧ files' = files.put place .directory
      ∧ files'.locate directory path = .ok place := by
  have hsegments : (path.segments.reverse.dropWhile (· == [])).reverse
      = path.segments.rdropWhile (· == []) := rfl
  unfold makeDirectory at h
  simp only [hsegments] at h
  cases hwalk : files.walk (start directory path)
      (path.segments.rdropWhile (· == [])) with
  | error obstacle =>
      rw [hwalk] at h
      cases h
  | ok place =>
      rw [hwalk] at h
      simp only at h
      cases hnode : files.node? place with
      | some node =>
          rw [hnode] at h
          cases h
      | none =>
          rw [hnode] at h
          cases h
          refine ⟨place, hnode, rfl, ?_⟩
          have hfree := node?_ne_of_missing hnode
          have hplace := ne_nil_of_node? hfree
          have hdirectories : ∀ other, files.node? other = some .directory →
              (files.put place .directory).node? other
                = some .directory :=
            fun _ => node?_put_of_directory hfree
          have hmade : (files.put place .directory).node? place
              = some .directory := by
            rw [node?_put hplace, if_pos rfl]
          -- slashes at the end lead nowhere else, once the directory is
          -- there
          rw [locate_of_text_ne hne,
            ← @List.rdropWhile_append_rtakeWhile _ (· == []) path.segments,
            walk_append, walk_mono hdirectories hwalk]
          apply walk_of_isSilent hmade
          intro segment hmem
          have hempty := List.mem_rtakeWhile_imp hmem
          rw [eq_of_beq hempty]
          rfl

/-- Making one directory adds just that one, at the end of its path. -/
theorem grows_makeDirectory (hne : path.text ≠ "")
    (h : files.makeDirectory directory path = .ok files')
    {paths : List FilePath} (hmem : path ∈ paths) :
    Grows directory paths files files' := by
  obtain ⟨place, hnone, rfl, hlocate⟩ := makeDirectory_eq_ok hne h
  have hplace := ne_nil_of_node? (node?_ne_of_missing hnone)
  constructor
  · intro other node hother
    rw [node?_put hplace, if_neg, hother]
    intro hsame
    rw [hsame, hnone] at hother
    cases hother
  · intro other node hother hafter
    rw [node?_put hplace] at hafter
    split at hafter
    · rename_i hsame
      cases hafter
      exact ⟨rfl, path, hmem, hsame ▸ hlocate⟩
    · rw [hother] at hafter
      cases hafter

/-- Making several, one after another, adds no more than the ends of their
paths, even if it stops halfway. -/
theorem grows_makeChain (paths : List FilePath) (files : FileSystem) :
    Grows directory paths files (files.makeChain directory paths).1 := by
  induction paths with
  | nil => exact .refl directory [] files
  | cons path ancestors ih =>
      have hmem : path ∈ path :: ancestors := List.mem_cons_self
      have hup := ih.mono (List.subset_cons_self path ancestors)
      unfold makeChain
      split
      · exact .refl directory _ files
      · rename_i hempty
        have hne : path.text ≠ "" := by
          intro htext
          exact hempty (String.isEmpty_iff.2 htext)
        split
        · rename_i made hmade
          exact grows_makeDirectory hne hmade hmem
        · exact .refl directory _ files
        · split
          · rename_i above hchain
            rw [hchain] at hup
            exact hup
          · rename_i above hchain
            rw [hchain] at hup
            split
            · rename_i made hmade
              exact hup.trans (grows_makeDirectory hne hmade hmem)
            · exact hup

-- ================================================== files in a directory

/-- Where an output directory is: at the end of its path, or where one
works if the path is empty. -/
def outputPlace? (files : FileSystem) (directory : Location)
    (output : FilePath) : Option Location :=
  if output.text = "" then some directory
  else (files.locate directory output).toOption

/-- The output is where its path leads, or the working directory if it is
empty. -/
theorem outputPlace?_eq_some_iff {output : FilePath} :
    files.outputPlace? directory output = some place
      ↔ (output.text = "" ∧ directory = place)
        ∨ files.locate directory output = .ok place := by
  unfold outputPlace?
  by_cases hempty : output.text = ""
  · rw [if_pos hempty, Option.some.injEq]
    constructor
    · exact fun h => .inl ⟨hempty, h⟩
    · intro h
      rcases h with ⟨-, h⟩ | h
      · exact h
      · exact absurd hempty (text_ne_of_locate h)
  · rw [if_neg hempty]
    cases files.locate directory output with
    | error obstacle => simp [Except.toOption, hempty]
    | ok other => simp [Except.toOption, hempty]

/-- The output stays in its place as long as no directory goes away. -/
theorem outputPlace?_mono {output : FilePath}
    (hdirectories : ∀ place, files.node? place = some .directory →
      files'.node? place = some .directory)
    (h : files.outputPlace? directory output = some place) :
    files'.outputPlace? directory output = some place := by
  rw [outputPlace?_eq_some_iff] at h ⊢
  rcases h with hempty | hlocate
  · exact .inl hempty
  · exact .inr (locate_mono hdirectories hlocate)

/-- A name in a directory leads there only if the directory is one. -/
theorem exists_place_of_within {output name : FilePath}
    (hslash : '/' ∉ name.text.toList)
    (hspoken : FilePath.isSilent name.text.toList = false)
    (hback : name.text.toList ≠ ['.', '.'])
    (h : files.locate directory (output.within name) = .ok place) :
    ∃ above, files.outputPlace? directory output = some above
      ∧ files.node? above = some .directory
      ∧ place = name.text.toList :: above := by
  obtain ⟨front, hsegments, houtput⟩ := FilePath.segments_within hslash
  have hstart : start directory (output.within name)
      = start directory output := by
    unfold start
    rw [FilePath.isAbsolute_within (FilePath.isAbsolute_of_notMem hslash)]
  rw [locate_of_text_ne (text_ne_of_locate h), hstart, hsegments] at h
  obtain ⟨above, hfront, hlast, hinside⟩ := exists_walk_of_append h
  have hnode := hinside (List.cons_ne_nil _ _)
  refine ⟨above, ?_, hnode, ?_⟩
  · rw [outputPlace?_eq_some_iff]
    -- the output may be the working directory itself
    rcases houtput with ⟨hempty, hnil⟩ | ⟨hne, hends⟩
    · refine .inl ⟨hempty, ?_⟩
      rw [hnil] at hfront
      cases hfront
      obtain ⟨text⟩ := output
      cases hempty
      rfl
    · right
      rw [locate_of_text_ne hne]
      rcases hends with hplain | hslash'
      · rw [hplain]
        exact hfront
      · rw [hslash', walk_append, hfront]
        apply walk_of_isSilent hnode
        intro segment hmem
        rw [List.mem_singleton.1 hmem]
        rfl
  · rw [walk_singleton] at hlast
    exact step_eq_cons hlast hspoken hback

-- ============================================================ writing files

/-- Writing succeeds where no directory is in the way, and changes that one
place. -/
theorem write?_eq_some {content : List UInt8}
    (h : files.write? directory path content = some files') :
    ∃ place, files.locate directory path = .ok place
      ∧ files.node? place ≠ some .directory
      ∧ files' = files.put place (.file content) := by
  unfold write? at h
  split at h
  · cases h
  · rename_i place hlocate
    split at h
    · cases h
    · rename_i hnode
      exact ⟨place, hlocate, hnode, (Option.some.inj h).symm⟩

end LayerPage.FileSystem
