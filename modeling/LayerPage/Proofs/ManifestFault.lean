/-
The faults of a manifest. What a conversion comes to is a function of the
files (`World.conversionOf`), and it fails with a fault exactly if the
manifest has it (`conversionOf_eq_error_iff`): there is no text, its
notation is not followed, a definition is refused, at whatever depth, there
is no layer, or the layers are no tree that can be built.

The rasters of a manifest are read before its layers are made, those that
its definitions name and no others. That makes no difference
(`ManifestLayer.ofDefinitions_congr`), so a definition is judged by the
rasters that are in the files.
-/
import LayerPage.Proofs.Build.Offence
import LayerPage.Proofs.Manifest
import LayerPage.Proofs.Validation

namespace LayerPage

open Construction (Offence IsFirst maxDepth)

-- ============================================== layers of a manifest

namespace ManifestLayer

variable {raster? raster?' : FilePath → Option Raster}
  {directory : FilePath}

/-- A definition without its children reads the one image it names. -/
theorem shallow_congr {d : LayerDefinition}
    (h : ∀ image, d.image? = some image →
      raster? (directory.within ⟨image⟩)
        = raster?' (directory.within ⟨image⟩)) :
    shallow raster? directory d = shallow raster?' directory d := by
  have hpixels : pixelsOf raster? directory d
      = pixelsOf raster?' directory d := by
    unfold pixelsOf
    cases himage : d.image? with
    | none =>
        cases d.fill? with
        | none => rfl
        | some fill => rfl
    | some image =>
        cases d.fill? with
        | none => simp only [h image himage]
        | some fill => rfl
  unfold shallow
  rw [hpixels]

mutual

/-- Only the rasters that are named make a difference. -/
theorem ofDefinition_congr : ∀ d : LayerDefinition,
    (∀ image ∈ d.images, raster? (directory.within ⟨image⟩)
      = raster?' (directory.within ⟨image⟩)) →
    ofDefinition raster? directory d = ofDefinition raster?' directory d
  | ⟨name, x, y, width, height, fill?, image?, kind?, children⟩ => by
      intro h
      rw [LayerDefinition.images] at h
      obtain ⟨hown, hbelow⟩ := List.forall_mem_append.1 h
      have hshallow : shallow raster? directory
          ⟨name, x, y, width, height, fill?, image?, kind?, children⟩
          = shallow raster?' directory
          ⟨name, x, y, width, height, fill?, image?, kind?, children⟩ := by
        apply shallow_congr
        intro image himage
        exact hown image (Option.mem_toList.2 himage)
      rw [ofDefinition, ofDefinition, hshallow,
        ofDefinitions_congr children hbelow]

/-- Definitions read only the images that they name. -/
theorem ofDefinitions_congr : ∀ ds : List LayerDefinition,
    (∀ image ∈ LayerDefinition.imagesOfAll ds,
      raster? (directory.within ⟨image⟩)
        = raster?' (directory.within ⟨image⟩)) →
    ofDefinitions raster? directory ds = ofDefinitions raster?' directory ds
  | [] => fun _ => rfl
  | d :: ds => by
      intro h
      rw [LayerDefinition.imagesOfAll] at h
      obtain ⟨hfirst, hrest⟩ := List.forall_mem_append.1 h
      rw [ofDefinitions, ofDefinitions, ofDefinition_congr d hfirst,
        ofDefinitions_congr ds hrest]

end

end ManifestLayer

namespace World

variable {world : World} {manifest : FilePath}

/-- The text of a manifest, if its file can be read as one. -/
def text? (world : World) (manifest : FilePath) : Option String :=
  (world.files.read? world.directory manifest).bind Manifest.text?

/-- What a manifest defines, if it has a text that follows its notation. -/
def definitions? (world : World) (manifest : FilePath) :
    Option (List LayerDefinition) :=
  (world.text? manifest).bind
    (world.readers.definitions? (ManifestFormat.ofPath manifest))

/-- A table of results by path holds the result for each of its paths. -/
theorem lookup_map_pair {β : Type} (f : FilePath → β)
    {paths : List FilePath} {path : FilePath} (h : path ∈ paths) :
    (paths.map fun path => (path, f path)).lookup path = some (f path) := by
  induction paths with
  | nil => exact absurd h List.not_mem_nil
  | cons first rest ih =>
      rw [List.map_cons, List.lookup_cons]
      by_cases hfirst : path = first
      · rw [beq_iff_eq.2 hfirst, hfirst]
      · rw [beq_false_of_ne hfirst]
        exact ih (List.mem_of_ne_of_mem hfirst h)

/-- The layers of a manifest are made of its definitions, with the rasters
that are in the files. -/
theorem layersOf_eq {definitions : List LayerDefinition}
    (h : world.definitions? manifest = some definitions) :
    world.layersOf manifest
      = ManifestLayer.ofDefinitions world.raster?
        (Manifest.directoryOf manifest) definitions := by
  unfold definitions? text? at h
  obtain ⟨text, htext, hdefinitions⟩ := Option.bind_eq_some_iff.1 h
  unfold layersOf Readers.definitions
  rw [htext]
  simp only [hdefinitions]
  apply ManifestLayer.ofDefinitions_congr
  intro image himage
  rw [lookup_map_pair]
  · rfl
  · exact List.mem_map.2 ⟨image, himage, rfl⟩

-- ================================================================ faults

/-- What is wrong with a manifest that cannot be converted. -/
inductive Unconvertible (world : World) (manifest : FilePath) : Fault → Prop
  | unreadable : world.text? manifest = none →
      Unconvertible world manifest (.file manifest .unreadableManifest)
  | unparsed {text : String} : world.text? manifest = some text →
      world.readers.definitions? (ManifestFormat.ofPath manifest) text
        = none →
      Unconvertible world manifest
        (.manifest (ManifestFormat.ofPath manifest))
  /-- A definition is not valid, and it is the first of all, at any depth:
  its size is negative, it has two sources of pixels, its colour is none,
  or its image cannot be decoded. -/
  | refused {definitions before behind : List LayerDefinition}
      {d : LayerDefinition} {fault : Fault} :
      world.definitions? manifest = some definitions →
      LayerDefinition.allOf definitions = before ++ d :: behind →
      (∀ e ∈ before,
        e.IsValid world.raster? (Manifest.directoryOf manifest)) →
      d.Refused world.raster? (Manifest.directoryOf manifest) fault →
      Unconvertible world manifest fault
  | noLayers : world.layersOf manifest = .ok [] →
      Unconvertible world manifest .noLayers
  /-- There is a body, but the layers below it are no tree of the depth that
  is allowed. -/
  | noTree {body : ManifestLayer} {others : List ManifestLayer}
      {path : List Nat} {fault : Fault} :
      world.layersOf manifest = .ok (body :: others) →
      IsFirst (Offence (maxDepth + 1) body) path fault →
      Unconvertible world manifest fault

/-- A manifest which cannot be read as text has no layers, and its file is
named. -/
theorem layersOf_of_unreadable (h : world.text? manifest = none) :
    world.layersOf manifest
      = .error (.file manifest .unreadableManifest) := by
  unfold text? at h
  unfold layersOf
  rw [h]

/-- A manifest which its reader rejects has no layers, and its format is
named. -/
theorem layersOf_of_unparsed {text : String}
    (htext : world.text? manifest = some text)
    (h : world.readers.definitions? (ManifestFormat.ofPath manifest) text
      = none) :
    world.layersOf manifest
      = .error (.manifest (ManifestFormat.ofPath manifest)) := by
  unfold text? at htext
  unfold layersOf Readers.definitions
  rw [htext]
  simp only [h]
  rfl

/-- Converting a document fails without a layer for the body, or at the
first offence of the body. -/
theorem convert_eq_error_iff {layers : List ManifestLayer} {fault : Fault} :
    Converter.convert {} (LayerDocument.ofList layers) = .error fault
      ↔ (layers = [] ∧ fault = .noLayers)
        ∨ ∃ body others path, layers = body :: others
          ∧ IsFirst (Offence (maxDepth + 1) body) path fault := by
  cases layers with
  | nil =>
      have hnone : Converter.convert {}
          (LayerDocument.ofList ([] : List ManifestLayer))
          = .error .noLayers := rfl
      rw [hnone]
      simp [eq_comm]
  | cons body others =>
      have hbuild := (Construction.reports_build
        (Metadata.builtin : MetadataRegistry ManifestLayer)
        body).eq_error_iff (fun path a b ha hb => ha.unique hb) fault
      have hconvert : Converter.convert {}
            (LayerDocument.ofList (body :: others)) = .error fault
          ↔ BuiltTree.build (Metadata.builtin : MetadataRegistry ManifestLayer)
            body = .error fault := by
        have hbody : (LayerDocument.ofList (body :: others)).layer? 0
          = some body := rfl
        unfold Converter.convert
        simp only [hbody]
        cases BuiltTree.build
            (Metadata.builtin : MetadataRegistry ManifestLayer) body with
        | error other => simp
        | ok built => simp
      rw [hconvert, hbuild]
      constructor
      · intro h
        obtain ⟨path, hfirst⟩ := h
        exact .inr ⟨body, others, path, rfl, hfirst⟩
      · intro h
        rcases h with ⟨hnil, -⟩ | ⟨body', others', path, hsame, hfirst⟩
        · cases hnil
        · cases hsame
          exact ⟨path, hfirst⟩

/-- A manifest whose layers are not to be had cannot be converted: its file
is not read, or its text is not, or one of its definitions is refused. -/
theorem unconvertible_of_layersOf_eq_error {fault : Fault}
    (h : world.layersOf manifest = .error fault) :
    world.Unconvertible manifest fault := by
  cases htext : world.text? manifest with
  | none =>
      rw [layersOf_of_unreadable htext] at h
      cases h
      exact .unreadable htext
  | some text =>
      cases hread : world.readers.definitions?
          (ManifestFormat.ofPath manifest) text with
      | none =>
          rw [layersOf_of_unparsed htext hread] at h
          cases h
          exact .unparsed htext hread
      | some definitions =>
          have hdefinitions :
              world.definitions? manifest = some definitions := by
            unfold definitions?
            rw [htext]
            exact hread
          rw [layersOf_eq hdefinitions] at h
          obtain ⟨before, d, behind, hsplit, hrefused, hvalid⟩ :=
            ManifestLayer.ofDefinitions_eq_error_iff.1 h
          exact .refused hdefinitions hsplit hvalid hrefused

/-- The faults that are listed are those that a conversion ends with. -/
theorem conversionOf_eq_error_iff {fault : Fault} :
    world.conversionOf manifest = .error fault
      ↔ world.Unconvertible manifest fault := by
  constructor
  · -- there are no layers to convert, or converting them fails
    intro h
    cases hlayers : world.layersOf manifest with
    | error other =>
        rw [conversionOf_of_layersOf_eq_error hlayers] at h
        cases h
        exact unconvertible_of_layersOf_eq_error hlayers
    | ok layers =>
        rw [conversionOf_of_layersOf_eq_ok hlayers,
          convert_eq_error_iff] at h
        rcases h with ⟨hnil, rfl⟩ | ⟨body, others, path, hbody, hfirst⟩
        · exact .noLayers (hnil ▸ hlayers)
        · exact .noTree (hbody ▸ hlayers) hfirst
  · intro h
    cases h with
    | unreadable htext =>
        exact conversionOf_of_layersOf_eq_error
          (layersOf_of_unreadable htext)
    | unparsed htext hread =>
        exact conversionOf_of_layersOf_eq_error
          (layersOf_of_unparsed htext hread)
    | refused hdefinitions hsplit hvalid hrefused =>
        apply conversionOf_of_layersOf_eq_error
        rw [layersOf_eq hdefinitions,
          ManifestLayer.ofDefinitions_eq_error_iff]
        exact ⟨_, _, _, hsplit, hrefused, hvalid⟩
    | noLayers hlayers =>
        rw [conversionOf_of_layersOf_eq_ok hlayers, convert_eq_error_iff]
        exact .inl ⟨rfl, rfl⟩
    | noTree hlayers hfirst =>
        rw [conversionOf_of_layersOf_eq_ok hlayers, convert_eq_error_iff]
        exact .inr ⟨_, _, _, rfl, hfirst⟩

end World

end LayerPage
