/-
Checking manifests agrees with converting them. Both commands come down to
one function of the world, `World.conversionOf`: what the files make of a
manifest, with the readers that the world has for them, whichever these
are. Reporting does not change it and a check does nothing but report, so
the list of manifests is folded over one and the same function, and the
induction over the list is a single one: `run_checkAll`.
-/
import Mathlib.Algebra.Order.BigOperators.Group.List
import Mathlib.Algebra.Ring.Nat
import LayerPage.Command.Run
import LayerPage.Proofs.Except

namespace LayerPage

-- ============================================================ worlds

namespace World

/-- A world in which more has been reported. -/
def told (world : World) (text : String) : World :=
  { world with reported := world.reported ++ text }

@[simp] theorem files_told (world : World) (text : String) :
    (world.told text).files = world.files := rfl

/-- What is reported in two steps is reported at once. -/
theorem told_told (world : World) (text more : String) :
    (world.told text).told more = world.told (text ++ more) := by
  simp only [told, String.append_assoc]

theorem told_empty (world : World) : world.told "" = world := by
  simp only [told, String.append_empty]

/-- A path as it is shown to somebody in the directory of a world. -/
def shown (world : World) (path : FilePath) : String :=
  path.display (pathOf world.directory)

/-- The raster that the readers of a world find in a file. -/
def raster? (world : World) (path : FilePath) : Option Raster :=
  (world.files.read? world.directory path).bind (world.readers.raster? path)

/-- The layers of a manifest, by the files of a world and the readers for
them. -/
def layersOf (world : World) (manifest : FilePath) :
    Except Fault (List ManifestLayer) :=
  match (world.files.read? world.directory manifest).bind Manifest.text? with
  | none => .error (.file manifest .unreadableManifest)
  | some text => do
    let definitions ←
      world.readers.definitions (ManifestFormat.ofPath manifest) text
    let directory := Manifest.directoryOf manifest
    let paths := (LayerDefinition.imagesOfAll definitions).map
      fun image => directory.within ⟨image⟩
    let rasters := paths.map fun path => (path, world.raster? path)
    ManifestLayer.ofDefinitions (fun path => (rasters.lookup path).join)
      directory definitions

/-- What a manifest is converted into, by the files of a world. -/
def conversionOf (world : World) (manifest : FilePath) :
    Except Fault (Conversion ManifestLayer) := do
  let layers ← world.layersOf manifest
  Converter.convert {} (LayerDocument.ofList layers)

/-- The layers of a manifest do not depend on what was reported. -/
theorem layersOf_told (world : World) (text : String) :
    (world.told text).layersOf = world.layersOf := rfl

/-- What layers are converted into does not depend on what was reported. -/
theorem conversionOf_told (world : World) (text : String) :
    (world.told text).conversionOf = world.conversionOf := rfl

/-- Once its layers are there, a manifest is converted as a document of
them. -/
theorem conversionOf_of_layersOf_eq_ok {world : World} {manifest : FilePath}
    {layers : List ManifestLayer} (h : world.layersOf manifest = .ok layers) :
    world.conversionOf manifest
      = Converter.convert {} (LayerDocument.ofList layers) := by
  unfold conversionOf
  rw [h]
  rfl

/-- A manifest without layers fails as loading it does. -/
theorem conversionOf_of_layersOf_eq_error {world : World}
    {manifest : FilePath} {fault : Fault}
    (h : world.layersOf manifest = .error fault) :
    world.conversionOf manifest = .error fault := by
  unfold conversionOf
  rw [h]
  rfl

end World

-- ============================================================== runs

namespace Command

/-- A command at work in a world of its own. -/
abbrev Session := ExceptT Fault (StateM World)

variable {α β : Type} {manifest : FilePath} {world after : World}
  {fault : Fault}

/-- A run goes on with what its first part comes to, or ends with the fault
of its first part. -/
theorem run_bind (first : Session α) (rest : α → Session β) (world : World) :
    (first >>= rest).run world
      = match first.run world with
        | (.ok a, after) => (rest a).run after
        | (.error fault, after) => (.error fault, after) := by
  simp only [ExceptT.run, bind, ExceptT.bind, ExceptT.mk, StateT.bind]
  cases first world with
  | mk outcome after => cases outcome <;> rfl

/-- A run goes on in the world that its first part leaves. -/
theorem run_bind_of_ok {first : Session α} {rest : α → Session β} {a : α}
    (h : first.run world = (.ok a, after)) :
    (first >>= rest).run world = (rest a).run after := by
  rw [run_bind, h]

theorem run_pure (a : α) (world : World) :
    (pure a : Session α).run world = (.ok a, world) := rfl

/-- An outcome that is known beforehand changes nothing in the world. -/
theorem run_liftM (outcome : Except Fault α) (world : World) :
    (liftM outcome : Session α).run world = (outcome, world) := by
  cases outcome <;> rfl

/-- A report adds a text to those before it, and nothing else. -/
theorem run_report (text : String) (world : World) :
    (Host.report text : Session Unit).run world
      = (.ok (), world.told text) := rfl

/-- A line of progress is a report. -/
theorem run_status (printer : Printer) (verb message : String) (world : World) :
    (status printer verb message : Session Unit).run world
      = (.ok (), world.told (printer.status verb message)) := rfl

/-- Showing a path looks at the working directory alone. -/
theorem run_shown (path : FilePath) (world : World) :
    (shown path : Session String).run world
      = (.ok (world.shown path), world) := rfl

/-- Reading the images one by one comes to looking each of them up. -/
theorem run_readRasters (paths : List FilePath) (world : World) :
    (paths.mapM (Manifest.readRaster world.readers) : Session _).run world
      = (.ok (paths.map fun path => (path, world.raster? path)), world) := by
  induction paths with
  | nil => rfl
  | cons path paths ih =>
      have hread :
          (Manifest.readRaster world.readers path : Session _).run world
          = (.ok (path, world.raster? path), world) := rfl
      rw [List.mapM_cons, run_bind_of_ok hread, run_bind_of_ok ih]
      rfl

/-- Loading a manifest reads the files and leaves the world as it is. -/
theorem run_load (manifest : FilePath) (world : World) :
    (Manifest.load manifest : Session _).run world
      = (world.layersOf manifest, world) := by
  have hread : (Host.read? manifest : Session _).run world
      = (.ok (world.files.read? world.directory manifest), world) := rfl
  unfold Manifest.load World.layersOf
  rw [run_bind_of_ok hread]
  generalize (world.files.read? world.directory manifest).bind Manifest.text?
    = text?
  cases text? with
  | none => rfl
  | some text =>
      have hreaders : (Host.readers : Session _).run world
          = (.ok world.readers, world) := rfl
      simp only
      rw [run_bind_of_ok hreaders]
      cases hdefinitions : world.readers.definitions
          (ManifestFormat.ofPath manifest) text with
      | error fault => rfl
      | ok definitions =>
          rw [run_bind_of_ok (run_liftM _ world),
            run_bind_of_ok (run_readRasters _ world), run_liftM]
          rfl

/-- Converting reports the diagnostics if it succeeds, and nothing
otherwise. -/
theorem run_convertLayers (printer : Printer) (layers : List ManifestLayer)
    (world : World) :
    (convertLayers printer layers : Session _).run world
      = match Converter.convert {} (LayerDocument.ofList layers) with
        | .ok conversion =>
          (.ok conversion,
            world.told (printer.diagnosticsText conversion.diagnostics))
        | .error fault => (.error fault, world) := by
  unfold convertLayers
  rw [run_bind, run_liftM]
  cases Converter.convert {} (LayerDocument.ofList layers) <;> rfl

-- ================================================= checking manifests

/-- What a check reports of one manifest. -/
def checkText (printer : Printer) (world : World) (manifest : FilePath) :
    String :=
  printer.status "Checking" (world.shown manifest)
    ++ match world.conversionOf manifest with
      | .ok conversion => printer.diagnosticsText conversion.diagnostics
      | .error _ => ""

/-- A check of one manifest comes to the number of its diagnostics, or to
the fault it has. -/
theorem run_checkManifest (printer : Printer) (manifest : FilePath)
    (world : World) :
    (checkManifest printer manifest : Session Nat).run world
      = ((world.conversionOf manifest).map (·.diagnostics.length),
          world.told (checkText printer world manifest)) := by
  unfold checkManifest checkText
  rw [run_bind_of_ok (run_shown manifest world),
    run_bind_of_ok (run_status ..), run_bind, run_load, World.layersOf_told]
  cases hlayers : world.layersOf manifest with
  | error fault =>
      rw [World.conversionOf_of_layersOf_eq_error hlayers]
      simp only [String.append_empty]
      rfl
  | ok layers =>
      simp only
      rw [World.conversionOf_of_layersOf_eq_ok hlayers, run_bind,
        run_convertLayers]
      cases Converter.convert {} (LayerDocument.ofList layers) with
      | error fault =>
          simp only [String.append_empty]
          rfl
      | ok conversion =>
          simp only [World.told_told]
          rfl

/-- A check of several comes to the first fault, or to a number for each.
The induction is on the manifests, with the world generalised: each check
leaves a world in which more has been reported. -/
theorem run_checkAll (printer : Printer) (manifests : List FilePath)
    (world : World) :
    ∃ text, (manifests.mapM (checkManifest printer) : Session _).run world
      = ((manifests.mapM world.conversionOf).map
            (List.map (·.diagnostics.length)),
          world.told text) := by
  induction manifests generalizing world with
  | nil => exact ⟨"", congrArg _ world.told_empty.symm⟩
  | cons manifest manifests ih =>
      rw [List.mapM_cons, run_bind, run_checkManifest, List.mapM_cons]
      cases world.conversionOf manifest with
      | error fault => exact ⟨_, rfl⟩
      | ok conversion =>
          obtain ⟨text, hrun⟩ :=
            ih (world.told (checkText printer world manifest))
          rw [World.conversionOf_told, World.told_told] at hrun
          refine ⟨checkText printer world manifest ++ text, ?_⟩
          simp only [Except.map]
          rw [run_bind, hrun]
          cases manifests.mapM world.conversionOf <;> rfl

/-- What a check comes to when every manifest is converted. -/
def verdict (strict : Bool) (problems : Nat) : Except Fault Nat :=
  if problems = 0 then .ok 0
  else if strict then .error (.problemsFound problems)
  else .ok problems

/-- A check converts the manifests in order up to the first that fails, and
it only reports. -/
theorem run_validateManifests (printer : Printer)
    (manifests : List FilePath) (strict : Bool) (world : World) :
    ∃ text, (validateManifests printer manifests strict : Session Nat).run world
      = ((manifests.mapM world.conversionOf).bind fun conversions =>
            verdict strict (conversions.map (·.diagnostics.length)).sum,
          world.told text) := by
  obtain ⟨text, hrun⟩ := run_checkAll printer manifests world
  unfold validateManifests verdict
  rw [run_bind, hrun]
  cases manifests.mapM world.conversionOf with
  | error fault => exact ⟨text, rfl⟩
  | ok conversions =>
      simp only [Except.map, Except.bind, ← List.sum_eq_foldl]
      generalize (conversions.map (·.diagnostics.length)).sum = problems
      by_cases hproblems : problems = 0
      · simp only [if_pos hproblems]
        rw [run_bind_of_ok (run_status ..), World.told_told]
        exact ⟨_, congrArg (·, _) (congrArg Except.ok hproblems)⟩
      · cases strict with
        | true =>
            simp only [if_neg hproblems]
            exact ⟨text, rfl⟩
        | false =>
            simp only [if_neg hproblems, Bool.false_eq_true, if_false]
            rw [run_bind_of_ok (run_report ..), World.told_told]
            exact ⟨_, rfl⟩

-- ================================================ converting a manifest

/-- What writing a file comes to, and the files it leaves. -/
def fileWritten (files : FileSystem) (directory : Location)
    (path : FilePath) (text : String) : Except Fault FilePath × FileSystem :=
  match files.write? directory path text.toUTF8.toList with
  | some files => (.ok path, files)
  | none => (.error (.file path .unwritablePage), files)

/-- What writing a page comes to, and the files it leaves. -/
def pageWritten {γ : Type} [Layer γ] (world : World) (page : Page γ)
    (output : FilePath) : Except Fault FilePath × FileSystem :=
  let (files, made) :=
    if (world.files.find? world.directory output).isSome then
      (world.files, true)
    else world.files.makeDirectories world.directory output
  if made then
    fileWritten files world.directory (output.within Page.fileName)
      page.render
  else (.error (.file output .uncreatableDirectory), files)

/-- What writing a page comes to does not depend on reports. -/
theorem pageWritten_told {γ : Type} [Layer γ] (world : World)
    (text : String) (page : Page γ) (output : FilePath) :
    pageWritten (world.told text) page output
      = pageWritten world page output := rfl

/-- Writing changes the files if it succeeds, and nothing otherwise. -/
theorem run_write (path : FilePath) (text : String) (world : World) :
    (Host.write path text : Session Bool).run world
      = match world.files.write? world.directory path text.toUTF8.toList with
        | some files => (.ok true, { world with files })
        | none => (.ok false, world) := by
  simp only [Host.write, ExceptT.run, ExceptT.lift, ExceptT.mk, Functor.map,
    StateT.map, bind, StateT.bind, get, getThe, MonadStateOf.get, StateT.get,
    pure]
  cases world.files.write? world.directory path text.toUTF8.toList <;> rfl

/-- A file that cannot be written is a fault. -/
theorem run_fileWritten (path : FilePath) (text : String) (world : World) :
    (do
        if ← Host.write path text then pure path
        else do
          throw (.file path .unwritablePage)
          pure path : Session FilePath).run world
      = ((fileWritten world.files world.directory path text).1,
          { world with
            files := (fileWritten world.files world.directory path text).2 })
      := by
  unfold fileWritten
  rw [run_bind, run_write]
  cases world.files.write? world.directory path text.toUTF8.toList <;> rfl

/-- Writing a page reports nothing. -/
theorem run_writePage {γ : Type} [Layer γ] (page : Page γ)
    (output : FilePath) (world : World) :
    (writePage page output : Session FilePath).run world
      = ((pageWritten world page output).1,
          { world with files := (pageWritten world page output).2 }) := by
  have hpresent : (Host.isPresent output : Session Bool).run world
      = (.ok (world.files.find? world.directory output).isSome, world) := rfl
  unfold writePage pageWritten
  rw [run_bind_of_ok hpresent]
  cases (world.files.find? world.directory output).isSome with
  | true => exact run_fileWritten _ page.render world
  | false =>
      have hmake : (Host.makeDirectories output : Session Bool).run world
          = (.ok (world.files.makeDirectories world.directory output).2,
              { world with
              files :=
                (world.files.makeDirectories world.directory output).1 }) :=
        rfl
      simp only [Bool.false_eq_true, if_false]
      rw [run_bind_of_ok hmake]
      generalize world.files.makeDirectories world.directory output = made
      obtain ⟨files, made⟩ := made
      cases made with
      | true => exact run_fileWritten _ page.render { world with files }
      | false => rfl

/-- What a conversion reports before its diagnostics. -/
def announcement (printer : Printer) (world : World)
    (manifest : FilePath) : String :=
  printer.status "Loading" (world.shown manifest)
    ++ printer.status "Converting" (world.shown manifest)

/-- What a conversion reports after its diagnostics: nothing if the page
could not be written. -/
def closing (printer : Printer) (world : World)
    (conversion : Conversion ManifestLayer) :
    Except Fault FilePath → String
  | .ok path =>
    printer.status "Finished"
      (Text.counted conversion.page.tree.size "element" "elements"
        ++ " -> " ++ printer.cyan (world.shown path))
  | .error _ => ""

/-- A manifest that has a fault is not written at all: the files stay as
they were. -/
theorem run_convertManifest_of_error (printer : Printer) (output : FilePath)
    (h : world.conversionOf manifest = .error fault) :
    ∃ text,
      (convertManifest printer manifest output : Session FilePath).run world
        = (.error fault, world.told text) := by
  unfold convertManifest
  rw [run_bind_of_ok (run_shown manifest world),
    run_bind_of_ok (run_status ..), run_bind, run_load, World.layersOf_told]
  cases hlayers : world.layersOf manifest with
  | error problem =>
      have hproblem :=
        (World.conversionOf_of_layersOf_eq_error hlayers).symm.trans h
      cases hproblem
      exact ⟨_, rfl⟩
  | ok layers =>
      have hconvert :=
        (World.conversionOf_of_layersOf_eq_ok hlayers).symm.trans h
      simp only
      rw [run_bind_of_ok (run_shown ..), run_bind_of_ok (run_status ..),
        run_bind, run_convertLayers,
        hconvert, World.told_told]
      exact ⟨_, rfl⟩

/-- A sound manifest is written once its diagnostics have been reported. -/
theorem run_convertManifest_of_ok (printer : Printer) (output : FilePath)
    {conversion : Conversion ManifestLayer}
    (h : world.conversionOf manifest = .ok conversion) :
    (convertManifest printer manifest output : Session FilePath).run world
      = ((pageWritten world conversion.page output).1,
          { world with
            files := (pageWritten world conversion.page output).2
            reported := world.reported ++ (announcement printer world manifest
              ++ printer.diagnosticsText conversion.diagnostics
              ++ closing printer world conversion
                (pageWritten world conversion.page output).1) }) := by
  unfold convertManifest
  rw [run_bind_of_ok (run_shown manifest world),
    run_bind_of_ok (run_status ..), run_bind, run_load, World.layersOf_told]
  -- with a conversion there are layers
  cases hlayers : world.layersOf manifest with
  | error problem =>
      have hproblem :=
        (World.conversionOf_of_layersOf_eq_error hlayers).symm.trans h
      cases hproblem
  | ok layers =>
      have hconvert :=
        (World.conversionOf_of_layersOf_eq_ok hlayers).symm.trans h
      simp only
      rw [run_bind_of_ok (run_shown ..), run_bind_of_ok (run_status ..),
        run_bind, run_convertLayers,
        hconvert]
      simp only [World.told_told]
      rw [run_bind, run_writePage, pageWritten_told]
      cases (pageWritten world conversion.page output).1 with
      | error fault =>
          simp only [closing, String.append_empty]
          rfl
      | ok path =>
          simp only [closing]
          rw [run_bind_of_ok (run_shown ..), run_bind_of_ok (run_status ..),
            run_pure]
          simp only [World.told, announcement, String.append_assoc]
          rfl

-- ============================================================== agreement

/-- Checking manifests and converting them, one by one, agree in a world. -/
structure ChecksAsConverted (printer : Printer) (world : World)
    (manifests : List FilePath) : Prop where
  /-- A conversion ends with the fault of the manifest, and writes nothing
  then. -/
  convert_of_error : ∀ manifest output fault,
    world.conversionOf manifest = .error fault →
    ∃ text,
      (convertManifest printer manifest output : Session FilePath).run world
        = (.error fault, world.told text)
  /-- A conversion reports the diagnostics of the manifest and writes its
  page. -/
  convert_of_ok : ∀ manifest output conversion,
    world.conversionOf manifest = .ok conversion →
    (convertManifest printer manifest output : Session FilePath).run world
      = ((pageWritten world conversion.page output).1,
          { world with
            files := (pageWritten world conversion.page output).2
            reported := world.reported ++ (announcement printer world manifest
              ++ printer.diagnosticsText conversion.diagnostics
              ++ closing printer world conversion
                (pageWritten world conversion.page output).1) })
  /-- A check writes nothing. -/
  check_files : ∀ strict,
    ((validateManifests printer manifests strict : Session Nat).run
      world).2.files = world.files
  /-- A check ends with the fault of the first manifest that has one. -/
  check_of_error : ∀ strict before manifest behind fault,
    manifests = before ++ manifest :: behind →
    (∀ other ∈ before, ∃ conversion,
      world.conversionOf other = .ok conversion) →
    world.conversionOf manifest = .error fault →
    ((validateManifests printer manifests strict : Session Nat).run world).1
      = .error fault
  /-- A strict check succeeds just if each manifest is converted without a
  diagnostic. -/
  strict_iff :
    (∃ count,
      ((validateManifests printer manifests true : Session Nat).run world).1
        = .ok count)
      ↔ ∀ manifest ∈ manifests, ∃ conversion,
          world.conversionOf manifest = .ok conversion
            ∧ conversion.diagnostics = []
  /-- A check that is not strict counts the diagnostics of all manifests, if
  all are converted. -/
  lenient_of_ok : ∀ conversions,
    List.Forall₂
      (fun manifest conversion => world.conversionOf manifest = .ok conversion)
      manifests conversions →
    ((validateManifests printer manifests false : Session Nat).run world).1
      = .ok (conversions.map (·.diagnostics.length)).sum

/-- A strict check passes only without a problem. -/
theorem verdict_strict_eq_ok_iff {problems count : Nat} :
    verdict true problems = .ok count ↔ problems = 0 ∧ count = 0 := by
  unfold verdict
  by_cases hproblems : problems = 0 <;> simp [hproblems, eq_comm]

/-- A check that is not strict counts them. -/
theorem verdict_lenient (problems : Nat) :
    verdict false problems = .ok problems := by
  unfold verdict
  by_cases hproblems : problems = 0 <;> simp [hproblems]

/-- What a check comes to, without what it reports. -/
theorem validateManifests_fst (printer : Printer)
    (manifests : List FilePath) (strict : Bool) (world : World) :
    ((validateManifests printer manifests strict : Session Nat).run world).1
      = (manifests.mapM world.conversionOf).bind fun conversions =>
          verdict strict (conversions.map (·.diagnostics.length)).sum := by
  obtain ⟨text, hrun⟩ := run_validateManifests printer manifests strict world
  rw [hrun]

/-- A strict check passes if each manifest is converted without a
diagnostic. -/
theorem strict_isOk_iff (printer : Printer) (world : World)
    (manifests : List FilePath) :
    (∃ count,
      ((validateManifests printer manifests true : Session Nat).run world).1
        = .ok count)
      ↔ ∀ manifest ∈ manifests, ∃ conversion,
          world.conversionOf manifest = .ok conversion
            ∧ conversion.diagnostics = [] := by
  have hclean (conversions : List (Conversion ManifestLayer)) :
      (conversions.map (·.diagnostics.length)).sum = 0 ↔
        ∀ conversion ∈ conversions, conversion.diagnostics = [] := by
    rw [List.sum_eq_zero_iff_forall_eq_nat, List.forall_mem_map]
    simp only [List.length_eq_zero_iff]
  rw [validateManifests_fst, ← exists_forall₂_iff]
  simp only [← mapM_eq_ok_iff, ← hclean]
  cases manifests.mapM world.conversionOf with
  | error fault => simp [Except.bind]
  | ok conversions => simp [Except.bind, verdict_strict_eq_ok_iff]

/-- A check of manifests and the conversions of each of them agree. -/
theorem validate_agrees_convert (printer : Printer) (world : World)
    (manifests : List FilePath) :
    ChecksAsConverted printer world manifests where
  convert_of_error manifest output fault h :=
    run_convertManifest_of_error printer output h
  convert_of_ok manifest output conversion h :=
    run_convertManifest_of_ok printer output h
  check_files strict := by
    obtain ⟨text, hrun⟩ := run_validateManifests printer manifests strict world
    rw [hrun, World.files_told]
  check_of_error strict before manifest behind fault hsplit hbefore hfault := by
    rw [validateManifests_fst, hsplit, mapM_of_first_error hbefore hfault]
    rfl
  strict_iff := strict_isOk_iff printer world manifests
  lenient_of_ok conversions h := by
    rw [validateManifests_fst, mapM_eq_ok_iff.2 h]
    exact verdict_lenient _

/-- A manifest with one layer and the given members in it. -/
def singleLayer (members : String) : FileNode :=
  .file ("\x7b\"layers\": [\x7b" ++ members ++ "\x7d]\x7d").toUTF8.toList

/-- A world with a sound manifest and one in which a layer name cannot be
read, and with the readers of the program. -/
def troubledWorld : World where
  readers := .builtin
  files :=
    ⟨[(["sound.json".toList],
        singleLayer "\"name\": \"<body>\", \"width\": 10"),
      (["named.json".toList],
        singleLayer ("\"name\": \"<body>\", "
          ++ "\"children\": [\x7b\"name\": \"???\"\x7d]"))]⟩

/-- The problem counts where the check is not strict, it fails a strict one,
and a missing manifest comes before the problem of the manifest in front of
it. -/
theorem troubledWorld_agrees :
    ((validateManifests ⟨false⟩ [⟨"/sound.json"⟩, ⟨"/named.json"⟩] false
        : Session Nat).run troubledWorld).1 = .ok 1
      ∧ (¬ ∃ count,
        ((validateManifests ⟨false⟩ [⟨"/sound.json"⟩, ⟨"/named.json"⟩] true
          : Session Nat).run troubledWorld).1 = .ok count)
      ∧ ((validateManifests ⟨false⟩
          [⟨"/named.json"⟩, ⟨"/missing.json"⟩, ⟨"/sound.json"⟩] true
          : Session Nat).run troubledWorld).1
        = .error (.file ⟨"/missing.json"⟩ .unreadableManifest) := by
  have hsound : (troubledWorld.conversionOf ⟨"/sound.json"⟩).map
      (·.diagnostics.length) = .ok 0 := by
    decide +kernel
  have hnamed : (troubledWorld.conversionOf ⟨"/named.json"⟩).map
      (·.diagnostics.length) = .ok 1 := by
    decide +kernel
  have hmissing : troubledWorld.conversionOf ⟨"/missing.json"⟩
      = .error (.file ⟨"/missing.json"⟩ .unreadableManifest) := rfl
  obtain ⟨sound, hsound, hnone⟩ := Except.exists_of_map_eq_ok hsound
  obtain ⟨named, hnamed, hone⟩ := Except.exists_of_map_eq_ok hnamed
  have hpair := validate_agrees_convert ⟨false⟩ troubledWorld
    [⟨"/sound.json"⟩, ⟨"/named.json"⟩]
  have hfirst := (validate_agrees_convert ⟨false⟩ troubledWorld
    [⟨"/named.json"⟩, ⟨"/missing.json"⟩, ⟨"/sound.json"⟩]).check_of_error
  refine ⟨?_, ?_, ?_⟩
  · have hcount := hpair.lenient_of_ok [sound, named]
      (.cons hsound (.cons hnamed .nil))
    simpa [hnone, hone] using hcount
  · intro hstrict
    obtain ⟨other, hother, hclean⟩ :=
      hpair.strict_iff.1 hstrict ⟨"/named.json"⟩ (by simp)
    cases hnamed.symm.trans hother
    simp [hclean] at hone
  · refine hfirst true [⟨"/named.json"⟩] ⟨"/missing.json"⟩
      [⟨"/sound.json"⟩] _ rfl ?_ hmissing
    intro other hother
    rw [List.mem_singleton.1 hother]
    exact ⟨named, hnamed⟩

end Command

end LayerPage
