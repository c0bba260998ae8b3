/-
A conversion writes its page or nothing (`convertManifest_all_or_nothing`).
All that can be wrong with a manifest is met before anything is written.
Once a page is complete, what changes are the directories on the way to
it that were missing, and the file of the page.

# Places

What is left behind is said of places, and paths are followed in the files
as they are afterwards (`Published`): a path that goes through a directory
which was made on the way, and back out of it, leads nowhere before. The
path of the page ends in a name, so there is a directory above its place,
and the path of the output leads to that (`exists_place_of_within`). What
was made on the way is at the end of the path of the output or of one of
its ancestors, because nothing else is ever made (`Grows`).
-/
import LayerPage.Proofs.FileSystem
import LayerPage.Proofs.ManifestFault

namespace LayerPage

open FileSystem (Grows)

/-- The name under which a page is written. -/
def Page.segment : FilePath.Segment :=
  Page.fileName.text.toList

-- ======================================================= a page in place

/-- What a page leaves behind in the files of a world: a text in a file of
its own, at a place in the output directory, and the directories on the
way. Everything else is as it was. -/
structure Published (world : World) (output : FilePath) (text : String)
    (after : FileSystem) (place : Location) : Prop where
  leads : after.outputPlace? world.directory output = some place
  directory : after.node? place = some .directory
  ancestors : ∀ ancestor ∈ output.ancestors, ancestor.text ≠ "" →
    after.find? world.directory ancestor = some .directory
  page : after.node? (Page.segment :: place)
    = some (.file text.toUTF8.toList)
  /-- The page is read back by its path. -/
  read : after.read? world.directory (output.within Page.fileName)
    = some text.toUTF8.toList
  /-- At most another file had to give way. -/
  no_directory : world.files.node? (Page.segment :: place)
    ≠ some .directory
  kept : ∀ other node, other ≠ Page.segment :: place →
    world.files.node? other = some node → after.node? other = some node
  /-- What is new is the output directory or one of its ancestors. -/
  made : ∀ other node, other ≠ Page.segment :: place →
    world.files.node? other = none → after.node? other = some node →
    node = .directory ∧ ∃ path ∈ output :: output.ancestors,
      after.locate world.directory path = .ok other

/-- Writing a text into a file of the output directory, once that is
there. -/
theorem published_of_grows {world : World} {output : FilePath}
    {middle : FileSystem} {place : Location}
    (hgrows : Grows world.directory (output :: output.ancestors)
      world.files middle)
    (hleads : middle.outputPlace? world.directory output = some place)
    (hdirectory : middle.node? place = some .directory)
    (hlocate : middle.locate world.directory (output.within Page.fileName)
      = .ok (Page.segment :: place))
    (hfree : middle.node? (Page.segment :: place) ≠ some .directory)
    (text : String) :
    Published world output text
      (middle.put (Page.segment :: place) (.file text.toUTF8.toList))
      place := by
  have hnode := @FileSystem.node?_put middle _
    (List.cons_ne_nil Page.segment place) (.file text.toUTF8.toList)
  have hdirectories : ∀ other, middle.node? other = some .directory →
      (middle.put (Page.segment :: place)
        (.file text.toUTF8.toList)).node? other = some .directory :=
    fun _ => FileSystem.node?_put_of_directory hfree
  have hpage := (hnode (Page.segment :: place)).trans (if_pos rfl)
  constructor
  · exact FileSystem.outputPlace?_mono hdirectories hleads
  · exact hdirectories place hdirectory
  · intro ancestor hmem hne
    rcases FileSystem.outputPlace?_eq_some_iff.1 hleads with
      ⟨hempty, -⟩ | hplace
    · obtain ⟨text⟩ := output
      cases hempty
      exact absurd hmem List.not_mem_nil
    · apply FileSystem.find?_mono hdirectories
      apply FileSystem.find?_of_holds
        (FilePath.holds_of_mem_ancestors hmem) hne
      exact FileSystem.find?_eq_some_iff.2 ⟨place, hplace, hdirectory⟩
  · exact hpage
  · have hfound := FileSystem.find?_eq_some_iff.2
      ⟨_, FileSystem.locate_mono hdirectories hlocate, hpage⟩
    unfold FileSystem.read?
    rw [hfound]
  · -- a directory in the place of the page would still be there
    intro hbefore
    exact hfree (hgrows.kept _ _ hbefore)
  · intro other node hother hbefore
    rw [hnode, if_neg hother]
    exact hgrows.kept other node hbefore
  · intro other node hother hbefore hafter
    rw [hnode, if_neg hother] at hafter
    obtain ⟨hsame, path, hmem, hplace⟩ :=
      hgrows.added other node hbefore hafter
    exact ⟨hsame, path, hmem, FileSystem.locate_mono hdirectories hplace⟩

namespace Command

variable {γ : Type} [Layer γ] {world : World} {page : Page γ}
  {output path : FilePath} {after : FileSystem} {fault : Fault}

/-- What is there when the page is about to be written: the output directory
was made, or it was there before. -/
theorem exists_grown (world : World) (page : Page γ) (output : FilePath) :
    ∃ middle, Grows world.directory (output :: output.ancestors)
        world.files middle
      ∧ (pageWritten world page output
          = fileWritten middle world.directory
            (output.within Page.fileName) page.render
        ∨ pageWritten world page output
          = (.error (.file output .uncreatableDirectory), middle)) := by
  have hmade : Grows world.directory (output :: output.ancestors)
      world.files (world.files.makeDirectories world.directory output).1 :=
    FileSystem.grows_makeChain ..
  unfold pageWritten
  cases (world.files.find? world.directory output).isSome with
  | true => exact ⟨world.files, .refl .., .inl rfl⟩
  | false =>
      refine ⟨_, hmade, ?_⟩
      simp only [Bool.false_eq_true, if_false]
      cases (world.files.makeDirectories world.directory output).2 with
      | true => exact .inl rfl
      | false => exact .inr rfl

/-- Where writing a page succeeds, the file of the page in the output
directory holds it. -/
theorem pageWritten_of_ok
    (h : pageWritten world page output = (.ok path, after)) :
    path = output.within Page.fileName
      ∧ ∃ place, Published world output page.render after place := by
  obtain ⟨middle, hgrows, hwritten | hfailed⟩ :=
    exists_grown world page output
  · rw [hwritten] at h
    unfold fileWritten at h
    cases hwrite : middle.write? world.directory
        (output.within Page.fileName) page.render.toUTF8.toList with
    | none =>
        rw [hwrite] at h
        cases h
    | some written =>
        rw [hwrite] at h
        cases h
        refine ⟨rfl, ?_⟩
        obtain ⟨place, hlocate, hfree, rfl⟩ :=
          FileSystem.write?_eq_some hwrite
        obtain ⟨above, houtput, habove, rfl⟩ :=
          FileSystem.exists_place_of_within (by decide) (by decide)
            (by decide) hlocate
        exact ⟨above, published_of_grows hgrows houtput habove hlocate hfree _⟩
  · rw [hfailed] at h
    cases h

/-- Where writing a page fails, at most directories are new, and the fault
names the output directory or the file of the page. -/
theorem pageWritten_of_error
    (h : pageWritten world page output = (.error fault, after)) :
    Grows world.directory (output :: output.ancestors) world.files after
      ∧ (fault = .file output .uncreatableDirectory
        ∨ fault = .file (output.within Page.fileName) .unwritablePage) := by
  obtain ⟨middle, hgrows, hwritten | hfailed⟩ :=
    exists_grown world page output
  · rw [hwritten] at h
    unfold fileWritten at h
    cases hwrite : middle.write? world.directory
        (output.within Page.fileName) page.render.toUTF8.toList with
    | none =>
        rw [hwrite] at h
        cases h
        exact ⟨hgrows, .inr rfl⟩
    | some written =>
        rw [hwrite] at h
        cases h
  · rw [hfailed] at h
    cases h
    exact ⟨hgrows, .inl rfl⟩

-- ===================================================== all or nothing

/-- What a conversion does to the files of a world, whatever manifest and
output directory it is given. -/
structure AllOrNothing (printer : Printer) (world : World)
    (manifest output : FilePath) : Prop where
  /-- If the manifest has a fault, the conversion ends with it, and nothing
  happens but reports. -/
  failed : ∀ fault, world.Unconvertible manifest fault → ∃ text,
    (convertManifest printer manifest output : Session FilePath).run world
      = (.error fault, world.told text)
  /-- Otherwise it is converted. -/
  converts : (¬∃ fault, world.Unconvertible manifest fault) →
    ∃ conversion, world.conversionOf manifest = .ok conversion
  /-- If the conversion succeeds, its page is in place. -/
  written : ∀ path after,
    (convertManifest printer manifest output : Session FilePath).run world
      = (.ok path, after) →
    path = output.within Page.fileName ∧ ∃ conversion place,
      world.conversionOf manifest = .ok conversion
        ∧ Published world output conversion.page.render after.files place
  /-- If it fails for another reason, that is the page or its directory, and
  at most directories were made. -/
  stopped : ∀ fault after,
    (convertManifest printer manifest output : Session FilePath).run world
      = (.error fault, after) →
    world.Unconvertible manifest fault ∨
      (Grows world.directory (output :: output.ancestors) world.files
          after.files
        ∧ (fault = .file output .uncreatableDirectory
          ∨ fault = .file (output.within Page.fileName) .unwritablePage))

/-- A conversion writes its page or nothing. -/
theorem convertManifest_all_or_nothing (printer : Printer) (world : World)
    (manifest output : FilePath) :
    AllOrNothing printer world manifest output := by
  constructor
  · intro fault hfault
    exact run_convertManifest_of_error printer output
      (World.conversionOf_eq_error_iff.2 hfault)
  · intro hsound
    cases hconversion : world.conversionOf manifest with
    | error fault =>
        exact absurd ⟨fault, World.conversionOf_eq_error_iff.1 hconversion⟩
          hsound
    | ok conversion => exact ⟨conversion, rfl⟩
  · intro path after hrun
    cases hconversion : world.conversionOf manifest with
    | error fault =>
        obtain ⟨text, hfailed⟩ :=
          run_convertManifest_of_error printer output hconversion
        rw [hfailed] at hrun
        cases hrun
    | ok conversion =>
        rw [run_convertManifest_of_ok printer output hconversion] at hrun
        obtain ⟨hpath, hafter⟩ := Prod.mk.inj hrun
        have hwritten : pageWritten world conversion.page output
            = (.ok path, after.files) := by
          rw [← hafter]
          exact Prod.ext hpath rfl
        obtain ⟨hname, place, hpublished⟩ := pageWritten_of_ok hwritten
        exact ⟨hname, conversion, place, rfl, hpublished⟩
  · intro fault after hrun
    cases hconversion : world.conversionOf manifest with
    | error other =>
        obtain ⟨text, hfailed⟩ :=
          run_convertManifest_of_error printer output hconversion
        rw [hfailed] at hrun
        cases hrun
        exact .inl (World.conversionOf_eq_error_iff.1 hconversion)
    | ok conversion =>
        rw [run_convertManifest_of_ok printer output hconversion] at hrun
        obtain ⟨hfault, hafter⟩ := Prod.mk.inj hrun
        have hwritten : pageWritten world conversion.page output
            = (.error fault, after.files) := by
          rw [← hafter]
          exact Prod.ext hfault rfl
        exact .inr (pageWritten_of_error hwritten)

/-- A sound manifest is written into two directories that are made for it;
one that is missing leaves the files as they are. -/
theorem troubledWorld_all_or_nothing :
    (∃ after place conversion,
      (convertManifest ⟨false⟩ ⟨"/sound.json"⟩ ⟨"/site/pages/"⟩
          : Session FilePath).run troubledWorld
        = (.ok ⟨"/site/pages/index.html"⟩, after)
        ∧ troubledWorld.conversionOf ⟨"/sound.json"⟩ = .ok conversion
        ∧ Published troubledWorld ⟨"/site/pages/"⟩ conversion.page.render
          after.files place)
      ∧ ∃ after,
        (convertManifest ⟨false⟩ ⟨"/gone.json"⟩ ⟨"/site/pages/"⟩
            : Session FilePath).run troubledWorld
          = (.error (.file ⟨"/gone.json"⟩ .unreadableManifest), after)
          ∧ after.files = troubledWorld.files := by
  have hsound : ((convertManifest ⟨false⟩ ⟨"/sound.json"⟩ ⟨"/site/pages/"⟩
      : Session FilePath).run troubledWorld).1.toOption
      = some ⟨"/site/pages/index.html"⟩ := by
    decide +kernel
  have hgone : troubledWorld.text? ⟨"/gone.json"⟩ = none := rfl
  constructor
  · generalize hrun : (convertManifest ⟨false⟩ ⟨"/sound.json"⟩
      ⟨"/site/pages/"⟩ : Session FilePath).run troubledWorld = ended at hsound
    obtain ⟨outcome, after⟩ := ended
    cases outcome with
    | error fault => cases hsound
    | ok path =>
        cases hsound
        obtain ⟨-, conversion, place, hconversion, hpublished⟩ :=
          (convertManifest_all_or_nothing ⟨false⟩ troubledWorld
            ⟨"/sound.json"⟩ ⟨"/site/pages/"⟩).written _ after hrun
        exact ⟨after, place, conversion, rfl, hconversion, hpublished⟩
  · obtain ⟨text, hrun⟩ := (convertManifest_all_or_nothing ⟨false⟩
      troubledWorld ⟨"/gone.json"⟩ ⟨"/site/pages/"⟩).failed _
      (.unreadable hgone)
    exact ⟨_, hrun, rfl⟩

end Command

end LayerPage
