/-
Loading a manifest. A list of layer definitions is loaded exactly if each
of them is valid, at every depth (`LayerDefinition.IsValid`); the layers
then follow their definitions (`ManifestLayer.Follows`), and otherwise the
fault is that of the first definition that is not valid, depth first,
parents before children (`ofDefinitions_exact`).

# One definition and all of them

What is wrong with one definition is settled without those below it:
`shallow` fails with a fault exactly if the definition is refused with it
(`Refused`), and the order of the checks is in what `Refused` says has
gone well before. Loading is then a search in the list of all definitions
(`LayerDefinition.allOf`) for the first one with a fault
(`failure?_ofDefinitions`); that is one induction over a definition and the
list of its children, and nothing need be known of what is loaded. That the
layers follow their definitions is another one, over the same data
(`follows_of_ofDefinitions`), and only there does it matter that an image
has as many pixels as its size says.
-/
import LayerPage.Manifest.Layer
import LayerPage.Proofs.Except
import LayerPage.Proofs.Raster

namespace LayerPage

-- ========================================================== definitions

namespace LayerDefinition

mutual

/-- A definition and those below it, depth first, parents before
children. -/
def withAll : LayerDefinition → List LayerDefinition
  | ⟨name, x, y, width, height, fill?, image?, kind?, children⟩ =>
      ⟨name, x, y, width, height, fill?, image?, kind?, children⟩
        :: allOf children

/-- The definitions of a list and those below them, in the same order. -/
def allOf : List LayerDefinition → List LayerDefinition
  | [] => []
  | d :: ds => withAll d ++ allOf ds

end

variable (raster? : FilePath → Option Raster) (directory : FilePath)

/-- The raster that an image names. -/
def rasterOf? (image : String) : Option Raster :=
  raster? (directory.within ⟨image⟩)

/-- Whether a definition is valid, regardless of those below it. -/
structure IsValid (d : LayerDefinition) : Prop where
  width : 0 ≤ d.width.toInt
  height : 0 ≤ d.height.toInt
  /-- There are not two sources of pixels. -/
  oneSource : d.fill? = none ∨ d.image? = none
  fill : ∀ fill, d.fill? = some fill →
    ∃ colour, Colour.ofHex? fill = some colour
  image : ∀ image, d.image? = some image →
    ∃ raster, rasterOf? raster? directory image = some raster

/-- Whether a definition is refused with a fault, regardless of those
below it. Its size is looked at first, then how many sources of pixels
there are, and then the one that is left. -/
inductive Refused (d : LayerDefinition) : Fault → Prop
  | size : d.width.toInt < 0 ∨ d.height.toInt < 0 →
      Refused d (.negativeSize d.name d.width.toInt d.height.toInt)
  | sources {fill image : String} :
      0 ≤ d.width.toInt → 0 ≤ d.height.toInt →
      d.fill? = some fill → d.image? = some image →
      Refused d (.fillAndImage d.name)
  | fill {fill : String} :
      0 ≤ d.width.toInt → 0 ≤ d.height.toInt →
      d.fill? = some fill → d.image? = none →
      Colour.ofHex? fill = none →
      Refused d (.colour (String.ofList (Text.trim fill.toList)))
  | image {image : String} :
      0 ≤ d.width.toInt → 0 ≤ d.height.toInt →
      d.fill? = none → d.image? = some image →
      rasterOf? raster? directory image = none →
      Refused d (.file (directory.within ⟨image⟩) .undecodableRaster)

variable {raster? directory} {d : LayerDefinition}

/-- What is not valid is refused. -/
theorem isValid_or_refused (raster? : FilePath → Option Raster)
    (directory : FilePath) (d : LayerDefinition) :
    d.IsValid raster? directory
      ∨ ∃ fault, d.Refused raster? directory fault := by
  -- in the order of the checks: size, sources, fill, image
  by_cases hsize : d.width.toInt < 0 ∨ d.height.toInt < 0
  · exact .inr ⟨_, .size hsize⟩
  have hwidth : 0 ≤ d.width.toInt := by omega
  have hheight : 0 ≤ d.height.toInt := by omega
  cases hfill : d.fill? with
  | none =>
      cases himage : d.image? with
      | none =>
          refine .inl ⟨hwidth, hheight, .inl hfill, ?_, ?_⟩
          · simp [hfill]
          · simp [himage]
      | some image =>
          cases hraster : rasterOf? raster? directory image with
          | none => exact .inr ⟨_, .image hwidth hheight hfill himage hraster⟩
          | some raster =>
              refine .inl ⟨hwidth, hheight, .inl hfill, ?_, ?_⟩
              · simp [hfill]
              · simp [himage, hraster]
  | some fill =>
      cases himage : d.image? with
      | some image => exact .inr ⟨_, .sources hwidth hheight hfill himage⟩
      | none =>
          cases hcolour : Colour.ofHex? fill with
          | none => exact .inr ⟨_, .fill hwidth hheight hfill himage hcolour⟩
          | some colour =>
              refine .inl ⟨hwidth, hheight, .inr himage, ?_, ?_⟩
              · simp [hfill, hcolour]
              · simp [himage]

end LayerDefinition

namespace ManifestLayer

variable (raster? : FilePath → Option Raster) (directory : FilePath)

/-- Whether a layer has what its definition says, regardless of what is
below both. -/
structure Matches (d : LayerDefinition) (layer : ManifestLayer) : Prop where
  name : layer.name = d.name
  bounds : layer.bounds = ⟨d.x, d.y, d.width, d.height⟩
  kind : ∀ kind, d.kind? = some kind → layer.kind = kind
  /-- A definition that does not tell its kind is that of a folder if it
  has children and no source of pixels. -/
  noKind : d.kind? = none → (layer.kind = .folder
    ↔ d.children ≠ [] ∧ d.fill? = none ∧ d.image? = none)
  /-- A colour fills the bounds. -/
  fill : ∀ fill, d.fill? = some fill →
    ∃ colour, Colour.ofHex? fill = some colour
      ∧ ∀ x y : Nat, layer.sample? x y
        = if (x : Int) < d.width.toInt ∧ (y : Int) < d.height.toInt then
            some colour
          else none
  /-- An image has its own size, and a pixel at every place inside. -/
  image : ∀ image, d.image? = some image →
    ∃ raster, LayerDefinition.rasterOf? raster? directory image = some raster
      ∧ (∀ x y, x < raster.width → y < raster.height →
        ∃ pixel, raster.pixels[y * raster.width + x]? = some pixel
          ∧ layer.sample? x y = some pixel)
      ∧ ∀ x y, ¬(x < raster.width ∧ y < raster.height) →
        layer.sample? x y = none
  noPixels : d.fill? = none → d.image? = none →
    ∀ x y, layer.sample? x y = none

/-- Whether a layer follows its definition, with all that is below both. -/
inductive Follows : LayerDefinition → ManifestLayer → Prop
  | intro {d : LayerDefinition} {layer : ManifestLayer} :
      Matches raster? directory d layer →
      List.Forall₂ Follows d.children layer.children → Follows d layer

-- ======================================================= one definition

variable {raster? directory} {d : LayerDefinition}

/-- What is refused fails with its fault: the checks come in the order in
which `Refused` lists them. -/
theorem shallow_of_refused {fault : Fault}
    (h : d.Refused raster? directory fault) :
    shallow raster? directory d = .error fault := by
  have hnegative : ∀ n : Int32, n < 0 ↔ n.toInt < 0 :=
    fun n => Int32.lt_iff_toInt_lt
  cases h with
  | size hsize =>
      unfold shallow
      rw [if_pos (by simpa [hnegative] using hsize)]
  | sources hwidth hheight hfill himage =>
      unfold shallow pixelsOf
      rw [if_neg (by simp [hnegative, hwidth, hheight]), hfill, himage]
      rfl
  | fill hwidth hheight hfill himage hcolour =>
      unfold shallow pixelsOf Colour.ofHex
      rw [if_neg (by simp [hnegative, hwidth, hheight]), hfill, himage]
      simp only [hcolour]
      rfl
  | image hwidth hheight hfill himage hraster =>
      unfold LayerDefinition.rasterOf? at hraster
      unfold shallow pixelsOf
      rw [if_neg (by simp [hnegative, hwidth, hheight]), hfill, himage]
      simp only [hraster]
      rfl

/-- The kind of a layer, if its pixels come from where the definition
says. -/
theorem kindOf_eq_folder_iff {pixels : Pixels}
    (hpixels : pixels = .empty ↔ d.fill? = none ∧ d.image? = none)
    (hkind : d.kind? = none) :
    kindOf d pixels = .folder
      ↔ d.children ≠ [] ∧ d.fill? = none ∧ d.image? = none := by
  unfold kindOf
  rw [hkind, Option.getD_none, ← hpixels]
  by_cases hempty : pixels = .empty
  · cases d.children with
    | nil => simp [hempty]
    | cons child rest => simp [hempty]
  · simp [hempty]

/-- A layer with the facts of its definition and with pixels of its own. -/
def withPixels (d : LayerDefinition) (pixels : Pixels)
    (children : List ManifestLayer) : ManifestLayer where
  name := d.name
  bounds := ⟨d.x, d.y, d.width, d.height⟩
  kind := kindOf d pixels
  pixels := pixels
  children := children

/-- A kind that a definition tells is that of its layer. -/
theorem withPixels_kind {pixels : Pixels} {kind : LayerKind}
    (hkind : d.kind? = some kind) (children : List ManifestLayer) :
    (withPixels d pixels children).kind = kind := by
  unfold withPixels kindOf
  rw [hkind, Option.getD_some]

/-- A layer of one colour has what a definition with a colour says. -/
theorem matches_of_fill {fill : String} {colour : Colour}
    (hfill : d.fill? = some fill) (himage : d.image? = none)
    (hcolour : Colour.ofHex? fill = some colour)
    (children : List ManifestLayer) :
    Matches raster? directory d (withPixels d (.solid colour) children) where
  name := rfl
  bounds := rfl
  kind _ hkind := withPixels_kind hkind children
  noKind := kindOf_eq_folder_iff (by simp [hfill])
  fill other hother := by
    cases hfill.symm.trans hother
    refine ⟨colour, hcolour, fun x y => ?_⟩
    show (if (x : Int) < d.width.toInt && (y : Int) < d.height.toInt then
      some colour else none) = _
    simp only [Bool.and_eq_true, decide_eq_true_eq]
  image other hother := by
    rw [himage] at hother
    cases hother
  noPixels hnone := by
    rw [hfill] at hnone
    cases hnone

/-- A layer with a raster has what a definition with an image says, if
there is a pixel at each place. -/
theorem matches_of_image {image : String} {raster : Raster}
    (hfull : raster.IsFull) (hfill : d.fill? = none)
    (himage : d.image? = some image)
    (hraster : LayerDefinition.rasterOf? raster? directory image
      = some raster)
    (children : List ManifestLayer) :
    Matches raster? directory d (withPixels d (.raster raster) children) where
  name := rfl
  bounds := rfl
  kind _ hkind := withPixels_kind hkind children
  noKind := kindOf_eq_folder_iff (by simp [himage])
  fill other hother := by
    rw [hfill] at hother
    cases hother
  image other hother := by
    cases himage.symm.trans hother
    refine ⟨raster, hraster, ?_, ?_⟩
    · intro x y hx hy
      have hsample : (withPixels d (.raster raster) children).sample? x y
          = raster.pixels[y * raster.width + x]? := by
        simp [withPixels, sample?, Raster.pixel?, hx, hy]
      have hinside := hfull.index_lt hx hy
      exact ⟨_, Array.getElem?_eq_getElem hinside, by
        rw [hsample, Array.getElem?_eq_getElem hinside]⟩
    · intro x y hout
      simp only [withPixels, sample?, Raster.pixel?]
      rw [if_neg (by simpa using hout)]
  noPixels _ hnone := by
    rw [himage] at hnone
    cases hnone

/-- An empty layer has what a definition without pixels says. -/
theorem matches_of_nothing (hfill : d.fill? = none) (himage : d.image? = none)
    (children : List ManifestLayer) :
    Matches raster? directory d (withPixels d .empty children) where
  name := rfl
  bounds := rfl
  kind _ hkind := withPixels_kind hkind children
  noKind := kindOf_eq_folder_iff (by simp [hfill, himage])
  fill other hother := by
    rw [hfill] at hother
    cases hother
  image other hother := by
    rw [himage] at hother
    cases hother
  noPixels _ _ _ _ := rfl

/-- Where the pixels of a valid definition come from: the one source that it
names, or nowhere. -/
inductive Sourced (raster? : FilePath → Option Raster) (directory : FilePath)
    (d : LayerDefinition) : Pixels → Prop
  | fill {fill : String} {colour : Colour} :
      d.fill? = some fill → d.image? = none →
      Colour.ofHex? fill = some colour →
      Sourced raster? directory d (.solid colour)
  | image {image : String} {raster : Raster} :
      d.fill? = none → d.image? = some image →
      LayerDefinition.rasterOf? raster? directory image = some raster →
      Sourced raster? directory d (.raster raster)
  | nothing : d.fill? = none → d.image? = none →
      Sourced raster? directory d .empty

/-- A valid definition has a source of pixels, or none to be had. -/
theorem exists_sourced_of_isValid (h : d.IsValid raster? directory) :
    ∃ pixels, Sourced raster? directory d pixels := by
  cases hfill : d.fill? with
  | some fill =>
      have himage : d.image? = none := by
        rcases h.oneSource with hnone | hnone
        · rw [hfill] at hnone
          cases hnone
        · exact hnone
      obtain ⟨colour, hcolour⟩ := h.fill fill hfill
      exact ⟨_, .fill hfill himage hcolour⟩
  | none =>
      cases himage : d.image? with
      | none => exact ⟨_, .nothing hfill himage⟩
      | some image =>
          obtain ⟨raster, hraster⟩ := h.image image himage
          exact ⟨_, .image hfill himage hraster⟩

/-- Pixels are taken from their source. -/
theorem pixelsOf_of_sourced {pixels : Pixels}
    (h : Sourced raster? directory d pixels) :
    pixelsOf raster? directory d = .ok pixels := by
  unfold pixelsOf
  cases h with
  | fill hfill himage hcolour =>
      rw [hfill, himage]
      simp only [Colour.ofHex, hcolour]
      rfl
  | image hfill himage hraster =>
      unfold LayerDefinition.rasterOf? at hraster
      rw [hfill, himage]
      simp only [hraster]
  | nothing hfill himage => rw [hfill, himage]

/-- A valid definition makes a layer, with pixels from its source. -/
theorem exists_shallow_of_isValid (h : d.IsValid raster? directory) :
    ∃ pixels, Sourced raster? directory d pixels
      ∧ shallow raster? directory d = .ok (withPixels d pixels []) := by
  obtain ⟨pixels, hpixels⟩ := exists_sourced_of_isValid h
  refine ⟨pixels, hpixels, ?_⟩
  have hwidth : ¬d.width < 0 := by
    rw [Int32.lt_iff_toInt_lt]
    exact Int.not_lt.2 h.width
  have hheight : ¬d.height < 0 := by
    rw [Int32.lt_iff_toInt_lt]
    exact Int.not_lt.2 h.height
  unfold shallow
  rw [if_neg (by simp [hwidth, hheight]), pixelsOf_of_sourced hpixels]
  rfl

/-- A definition is refused exactly if making its layer alone fails. -/
theorem shallow_eq_error_iff {fault : Fault} :
    shallow raster? directory d = .error fault
      ↔ d.Refused raster? directory fault := by
  constructor
  · intro h
    rcases d.isValid_or_refused raster? directory with hvalid | hrefused
    · obtain ⟨pixels, -, hok⟩ := exists_shallow_of_isValid hvalid
      rw [h] at hok
      cases hok
    · obtain ⟨other, hother⟩ := hrefused
      cases h.symm.trans (shallow_of_refused hother)
      exact hother
  · exact shallow_of_refused

/-- A layer has what its definition says, whatever is put below it. -/
theorem matches_of_shallow
    (hfull : ∀ path raster, raster? path = some raster → raster.IsFull)
    {layer : ManifestLayer} (h : shallow raster? directory d = .ok layer)
    (children : List ManifestLayer) :
    Matches raster? directory d { layer with children } := by
  rcases d.isValid_or_refused raster? directory with hvalid | hrefused
  · obtain ⟨pixels, hpixels, hok⟩ := exists_shallow_of_isValid hvalid
    cases h.symm.trans hok
    cases hpixels with
    | fill hfill himage hcolour =>
        exact matches_of_fill hfill himage hcolour children
    | image hfill himage hraster =>
        exact matches_of_image (hfull _ _ hraster) hfill himage hraster
          children
    | nothing hfill himage => exact matches_of_nothing hfill himage children
  · obtain ⟨fault, hrefused⟩ := hrefused
    cases h.symm.trans (shallow_of_refused hrefused)

/-- What is wrong with a definition alone. -/
def faultOf? (raster? : FilePath → Option Raster) (directory : FilePath)
    (d : LayerDefinition) : Option Fault :=
  failure? (shallow raster? directory d)

/-- A definition has a fault just if it is refused with it. -/
theorem faultOf?_eq_some_iff {fault : Fault} :
    faultOf? raster? directory d = some fault
      ↔ d.Refused raster? directory fault :=
  failure?_eq_some_iff.trans shallow_eq_error_iff

/-- A definition has no fault just if it is valid. -/
theorem faultOf?_eq_none_iff :
    faultOf? raster? directory d = none ↔ d.IsValid raster? directory := by
  unfold faultOf?
  rw [failure?_eq_none_iff]
  constructor
  · intro hok
    obtain ⟨layer, hok⟩ := hok
    rcases d.isValid_or_refused raster? directory with hvalid | hrefused
    · exact hvalid
    · obtain ⟨fault, hfault⟩ := hrefused
      cases hok.symm.trans (shallow_of_refused hfault)
  · intro hvalid
    obtain ⟨pixels, -, hok⟩ := exists_shallow_of_isValid hvalid
    exact ⟨_, hok⟩

-- ========================================================== all of them

mutual

/-- Loading a definition fails with the first fault in it and below it: what
is wrong with it alone, and then with its children. -/
theorem failure?_ofDefinition : ∀ d : LayerDefinition,
    failure? (ofDefinition raster? directory d)
      = d.withAll.findSome? (faultOf? raster? directory)
  | ⟨name, x, y, width, height, fill?, image?, kind?, children⟩ => by
      rw [LayerDefinition.withAll, ofDefinition, ← List.singleton_append,
        List.findSome?_append, List.findSome?_singleton]
      refine failure?_bind fun layer => ?_
      rw [failure?_bind_pure]
      exact failure?_ofDefinitions children

/-- Loading definitions side by side fails with the first fault in them. -/
theorem failure?_ofDefinitions : ∀ ds : List LayerDefinition,
    failure? (ofDefinitions raster? directory ds)
      = (LayerDefinition.allOf ds).findSome? (faultOf? raster? directory)
  | [] => rfl
  | d :: ds => by
      rw [LayerDefinition.allOf, ofDefinitions, List.findSome?_append,
        ← failure?_ofDefinition d]
      refine failure?_bind fun layer => ?_
      rw [failure?_bind_pure]
      exact failure?_ofDefinitions ds

end

/-- Loading succeeds exactly if all definitions are valid, at every depth. -/
theorem exists_ofDefinitions_iff {ds : List LayerDefinition} :
    (∃ layers, ofDefinitions raster? directory ds = .ok layers)
      ↔ ∀ d ∈ LayerDefinition.allOf ds, d.IsValid raster? directory := by
  rw [← failure?_eq_none_iff, failure?_ofDefinitions,
    List.findSome?_eq_none_iff]
  simp only [faultOf?_eq_none_iff]

/-- Loading fails with what is wrong with the first definition that is not
valid. -/
theorem ofDefinitions_eq_error_iff {ds : List LayerDefinition}
    {fault : Fault} :
    ofDefinitions raster? directory ds = .error fault
      ↔ ∃ before d after,
        LayerDefinition.allOf ds = before ++ d :: after
          ∧ d.Refused raster? directory fault
          ∧ ∀ e ∈ before, e.IsValid raster? directory := by
  rw [← failure?_eq_some_iff, failure?_ofDefinitions,
    List.findSome?_eq_some_iff]
  simp only [faultOf?_eq_some_iff, faultOf?_eq_none_iff]

mutual

/-- What is loaded follows its definition: the layer has what the definition
says, and its children follow those of the definition. -/
theorem follows_of_ofDefinition
    (hfull : ∀ path raster, raster? path = some raster → raster.IsFull) :
    ∀ (d : LayerDefinition) (layer : ManifestLayer),
      ofDefinition raster? directory d = .ok layer →
      Follows raster? directory d layer
  | ⟨name, x, y, width, height, fill?, image?, kind?, children⟩ => by
      intro layer h
      rw [ofDefinition] at h
      obtain ⟨own, hown, h⟩ := Except.exists_of_bind_eq_ok h
      obtain ⟨below, hbelow, h⟩ := Except.exists_of_bind_eq_ok h
      cases h
      exact .intro (matches_of_shallow hfull hown below)
        (follows_of_ofDefinitions hfull children below hbelow)

/-- What is loaded from several definitions follows them, one by one. -/
theorem follows_of_ofDefinitions
    (hfull : ∀ path raster, raster? path = some raster → raster.IsFull) :
    ∀ (ds : List LayerDefinition) (layers : List ManifestLayer),
      ofDefinitions raster? directory ds = .ok layers →
      List.Forall₂ (Follows raster? directory) ds layers
  | [] => by
      intro layers h
      cases h
      exact .nil
  | d :: ds => by
      intro layers h
      rw [ofDefinitions] at h
      obtain ⟨first, hfirst, h⟩ := Except.exists_of_bind_eq_ok h
      obtain ⟨rest, hrest, h⟩ := Except.exists_of_bind_eq_ok h
      cases h
      exact .cons (follows_of_ofDefinition hfull d first hfirst)
        (follows_of_ofDefinitions hfull ds rest hrest)

end

/-- Loading a manifest is exact. It succeeds if and only if all
definitions are valid, at every depth, and then the layers follow them; it
fails if and only if there is a first one that is not, and then with what
is wrong with that. -/
theorem ofDefinitions_exact
    (hfull : ∀ path raster, raster? path = some raster → raster.IsFull)
    (ds : List LayerDefinition) :
    ((∃ layers, ofDefinitions raster? directory ds = .ok layers)
        ↔ ∀ d ∈ LayerDefinition.allOf ds, d.IsValid raster? directory)
      ∧ (∀ layers, ofDefinitions raster? directory ds = .ok layers →
        List.Forall₂ (Follows raster? directory) ds layers)
      ∧ ∀ fault, ofDefinitions raster? directory ds = .error fault
        ↔ ∃ before d after,
          LayerDefinition.allOf ds = before ++ d :: after
            ∧ d.Refused raster? directory fault
            ∧ ∀ e ∈ before, e.IsValid raster? directory :=
  ⟨exists_ofDefinitions_iff, follows_of_ofDefinitions hfull ds,
    fun _ => ofDefinitions_eq_error_iff⟩

end ManifestLayer

-- ============================================================== a sample

namespace ManifestLayer

/-- A directory with one image of two grey pixels. -/
def sampleRaster? (path : FilePath) : Option Raster :=
  if path = ⟨"art/logo.pgm"⟩ then
    Raster.ofFile? path
      [0x50, 0x35, 0x0A, 0x32, 0x20, 0x31, 0x0A, 0x32, 0x35, 0x35, 0x0A,
        0x07, 0x09]
  else none

/-- Definitions with a colour, an image, and a group of its own kind. -/
def sampleDefinitions : List LayerDefinition :=
  [{ name := "<body>", width := 300, height := 200, fill? := some " #fff "
     children :=
      [{ name := "head", y := 10
         children := [{ name := "logo", image? := some "logo.pgm" }] },
        { name := "foot", kind? := some .folder, fill? := some "102030" }] }]

/-- The same definitions after one that has a source too many inside, and
before one that is of negative size. -/
def brokenDefinitions : List LayerDefinition :=
  [{ name := "outer"
     children :=
      [{ name := "inner", fill? := some "#000", image? := some "gone.pgm" }] }]
    ++ sampleDefinitions ++ [{ name := "last", width := -1 }]

/-- The sample definitions are loaded; the others are not, for what is
wrong inside the first one. -/
theorem sampleDefinitions_exact :
    (∀ path raster, sampleRaster? path = some raster → raster.IsFull)
      ∧ (∃ layers, ofDefinitions sampleRaster? ⟨"art"⟩ sampleDefinitions
            = .ok layers
          ∧ List.Forall₂ (Follows sampleRaster? ⟨"art"⟩) sampleDefinitions
            layers)
      ∧ ofDefinitions sampleRaster? ⟨"art"⟩ brokenDefinitions
        = .error (.fillAndImage "inner")
      ∧ ∃ before d after,
        LayerDefinition.allOf brokenDefinitions = before ++ d :: after
          ∧ d.Refused sampleRaster? ⟨"art"⟩ (.fillAndImage "inner")
          ∧ ∀ e ∈ before, e.IsValid sampleRaster? ⟨"art"⟩ := by
  have hfull : ∀ path raster, sampleRaster? path = some raster →
      raster.IsFull := by
    intro path raster h
    unfold sampleRaster? at h
    split at h
    · exact Raster.isFull_of_ofFile? h
    · cases h
  have hvalid : (ofDefinitions sampleRaster? ⟨"art"⟩
      sampleDefinitions).toOption.isSome = true := by
    decide +kernel
  obtain ⟨layers, hloaded⟩ : ∃ layers, ofDefinitions sampleRaster? ⟨"art"⟩
      sampleDefinitions = .ok layers := by
    cases h : ofDefinitions sampleRaster? ⟨"art"⟩ sampleDefinitions with
    | ok layers => exact ⟨layers, rfl⟩
    | error fault =>
        rw [h] at hvalid
        cases hvalid
  have hbroken : ofDefinitions sampleRaster? ⟨"art"⟩ brokenDefinitions
      = .error (.fillAndImage "inner") := rfl
  exact ⟨hfull, ⟨layers, hloaded,
      (ofDefinitions_exact hfull sampleDefinitions).2.1 layers hloaded⟩,
    hbroken, ((ofDefinitions_exact hfull brokenDefinitions).2.2 _).1 hbroken⟩

end ManifestLayer

end LayerPage
