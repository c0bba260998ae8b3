/-
Full rasters: those with a pixel for each of their places, and no more
(`Raster.IsFull`). A raster that was read from a file is full
(`Raster.isFull_of_ofFile?`), because as many samples are read as its
header asks for, and each pixel takes one of them if the image is grey and
three if it is not.
-/
import LayerPage.Raster.File

namespace LayerPage

namespace Raster

/-- Whether a raster has a pixel for each of its places, and no more. -/
def IsFull (raster : Raster) : Prop :=
  raster.pixels.size = raster.width * raster.height

/-- A full raster has a pixel at every place inside. -/
theorem IsFull.index_lt {raster : Raster} (h : raster.IsFull)
    {x y : Nat} (hx : x < raster.width) (hy : y < raster.height) :
    y * raster.width + x < raster.pixels.size :=
  calc y * raster.width + x < y * raster.width + raster.width := by omega
    _ = (y + 1) * raster.width := (Nat.succ_mul ..).symm
    _ ≤ raster.height * raster.width := Nat.mul_le_mul_right _ hy
    _ = raster.pixels.size := by rw [h, Nat.mul_comm]

namespace Netpbm

theorem length_readBytes? {count : Nat} {bytes : List UInt8}
    {samples : List Nat} (h : readBytes? count bytes = some samples) :
    samples.length = count := by
  induction count generalizing bytes samples with
  | zero =>
      cases h
      rfl
  | succ count ih =>
      cases bytes with
      | nil => cases h
      | cons b rest =>
          obtain ⟨others, hothers, rfl⟩ := Option.map_eq_some_iff.1 h
          rw [List.length_cons, ih hothers]

theorem length_readNumbers? {count : Nat} {bytes : List UInt8}
    {samples : List Nat} (h : readNumbers? count bytes = some samples) :
    samples.length = count := by
  induction count generalizing bytes samples with
  | zero =>
      cases h
      rfl
  | succ count ih =>
      obtain ⟨sample, -, hrest⟩ := Option.bind_eq_some_iff.1 h
      obtain ⟨others, hothers, heq⟩ := Option.bind_eq_some_iff.1 hrest
      cases heq
      rw [List.length_cons, ih hothers]

/-- A grey sample is a pixel whose three channels are equal. -/
theorem colours_grey (v : UInt8) (rest : List UInt8) :
    colours true (v :: rest)
      = { r := v, g := v, b := v } :: colours true rest := by
  delta colours
  rfl

theorem length_colours_grey (samples : List UInt8) :
    (colours true samples).length = samples.length := by
  induction samples with
  | nil => rfl
  | cons v rest ih =>
      rw [colours_grey, List.length_cons, List.length_cons, ih]

theorem colours_of_three (r g b : UInt8) (rest : List UInt8) :
    colours false (r :: g :: b :: rest) = { r, g, b } :: colours false rest :=
  rfl

theorem length_colours_of_three {n : Nat} {samples : List UInt8}
    (h : samples.length = n * 3) : (colours false samples).length = n := by
  induction n generalizing samples with
  | zero =>
      rw [Nat.zero_mul, List.length_eq_zero_iff] at h
      rw [h]
      rfl
  | succ n ih =>
      have hlong : 3 ≤ samples.length := by omega
      match samples, hlong with
      | r :: g :: b :: rest, _ =>
          have hrest : rest.length = n * 3 := by
            simp only [List.length_cons] at h
            omega
          rw [colours_of_three, List.length_cons, ih hrest]

/-- An image that is decoded is full. -/
theorem isFull_of_decode? {bytes : List UInt8} {raster : Raster}
    (h : decode? bytes = some raster) : raster.IsFull := by
  obtain ⟨⟨grey, binary, rest⟩, -, h⟩ := Option.bind_eq_some_iff.1 h
  obtain ⟨⟨width, rest⟩, -, h⟩ := Option.bind_eq_some_iff.1 h
  obtain ⟨⟨height, rest⟩, -, h⟩ := Option.bind_eq_some_iff.1 h
  obtain ⟨⟨greatest, rest⟩, -, h⟩ := Option.bind_eq_some_iff.1 h
  by_cases hgreatest : 255 < greatest
  · simp only [if_pos hgreatest] at h
    cases h
  simp only [if_neg hgreatest] at h
  -- the samples are as many as asked for, however they are written
  obtain ⟨samples, hlength, heq⟩ : ∃ samples : List Nat,
      samples.length = (width * height * if grey then 1 else 3)
        ∧ ({ width, height
             pixels := (colours grey (samples.map fun sample =>
              (scaleSample greatest sample).toUInt8)).toArray } : Raster)
          = raster := by
    cases binary with
    | true =>
        obtain ⟨samples, hread, heq⟩ := Option.bind_eq_some_iff.1 h
        exact ⟨samples, length_readBytes? hread, Option.some.inj heq⟩
    | false =>
        obtain ⟨samples, hread, heq⟩ := Option.bind_eq_some_iff.1 h
        exact ⟨samples, length_readNumbers? hread, Option.some.inj heq⟩
  subst heq
  unfold IsFull
  rw [List.size_toArray]
  cases grey with
  | true =>
      rw [length_colours_grey, List.length_map, hlength, if_pos rfl,
        Nat.mul_one]
  | false =>
      apply length_colours_of_three
      rw [List.length_map, hlength, if_neg Bool.false_ne_true]

end Netpbm

/-- A raster which was read has as many pixels as its header says. -/
theorem isFull_of_ofFile? {path : FilePath} {content : List UInt8}
    {raster : Raster} (h : ofFile? path content = some raster) :
    raster.IsFull := by
  unfold ofFile? at h
  split at h
  · exact Netpbm.isFull_of_decode? h
  · cases h

end Raster

end LayerPage
