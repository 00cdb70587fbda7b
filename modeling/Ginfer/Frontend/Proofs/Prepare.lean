/-
Prepared media are well shaped.

However a resize rounds and scales a picture, both its sides are whole
merged patches and none is empty (`Merged`): where the pixels are within
the bounds they are not zero, and where they are not the scaled sides are
cut to factors. So the grid of every item is positive and even, and the
payload has the patches of the grid (`prepare_shape`).
-/
import Ginfer.Frontend.Prepare
import Ginfer.Frontend.Proofs.Video

namespace Ginfer.Frontend.Multimodal

open Ginfer.Lib Ginfer.Lib.Outcome
open Ginfer.Media (DecodeError Stream)
open Ginfer.Qwen (PromptModality VisionGrid)

-- ============ the sides

/-- A side of whole merged patches. -/
def Merged (side : Int) : Prop := 0 < side ∧ factor ∣ side

theorem factor_pos : 0 < factor := by decide

/-- The patches along such a side. -/
theorem Merged.patches {side : Int} (h : Merged side) :
    0 < side / patch ∧ side / patch % 2 = 0 := by
  obtain ⟨hpos, k, rfl⟩ := h
  have hfactor : factor = 32 := rfl
  have hpatch : patch = 16 := rfl
  rw [hfactor] at hpos
  rw [hfactor, hpatch]
  omega

section

variable {a : ResizeArithmetic} {height width : Int}
  {minPixels maxPixels : Nat} {size : Int × Int}

theorem fitPixels_merged {pixels volume count : Nat} {rounded : Int × Int}
    (hsize : fitPixels a height width pixels rounded volume minPixels
      maxPixels = size)
    (hvolume : volume = count * (rounded.1.toNat * rounded.2.toNat))
    (hheight : 0 < height) (hwidth : 0 < width) (hpixels : 0 < pixels)
    (hmin : 0 < minPixels) (h : factor ∣ rounded.1) (w : factor ∣ rounded.2) :
    Merged size.1 ∧ Merged size.2 := by
  have hshrunk : ∀ n : Int, Merged (max factor (n * factor)) := by
    intro n
    refine ⟨lt_max_of_lt_left factor_pos, ?_⟩
    rcases max_choice factor (n * factor) with hmax | hmax
    · rw [hmax]
    · rw [hmax]
      exact dvd_mul_left _ _
  have hgrown : ∀ side, 0 < side →
      Merged (a.grow side pixels minPixels * factor) := fun side hside =>
    ⟨mul_pos (a.grow_pos _ _ _ hside hpixels hmin) factor_pos,
      dvd_mul_left _ _⟩
  subst hsize
  unfold fitPixels
  split
  · exact ⟨hshrunk _, hshrunk _⟩
  · split
    · exact ⟨hgrown _ hheight, hgrown _ hwidth⟩
    · -- Within the bounds there are pixels, so no side was rounded away.
      have hsome : 0 < count * (rounded.1.toNat * rounded.2.toNat) := by
        omega
      have hsides := Nat.pos_of_mul_pos_left hsome
      have htop := Nat.pos_of_mul_pos_right hsides
      have hleft := Nat.pos_of_mul_pos_left hsides
      exact ⟨⟨by omega, h⟩, ⟨by omega, w⟩⟩

theorem checkedMul_ok {x y n : Nat} {label : String}
    (h : checkedMul x y label = .ok n) : n = x * y := by
  unfold checkedMul at h
  obtain ⟨-, h⟩ := guard_ok.mp h
  exact (Except.ok.inj h).symm

theorem smartResizeImage_merged
    (h : smartResizeImage a height width minPixels maxPixels = .ok size) :
    Merged size.1 ∧ Merged size.2 := by
  unfold smartResizeImage at h
  obtain ⟨hvalid, h⟩ := guard_ok.mp h
  obtain ⟨-, h⟩ := guard_ok.mp h
  obtain ⟨area, harea, h⟩ := bind_ok.mp h
  have hpixels : 0 < (height * width).toNat :=
    Int.lt_toNat.mpr (mul_pos (by omega) (by omega))
  have hmax : ∀ side : Int, (max side 0).toNat = side.toNat := by omega
  have hvolume := (checkedMul_ok harea).trans (one_mul _).symm
  rw [hmax, hmax] at hvolume
  exact fitPixels_merged (Except.ok.inj h) hvolume (by omega) (by omega)
    hpixels (by omega) (dvd_mul_left _ _) (dvd_mul_left _ _)

theorem smartResizeVideo_merged {frames : Nat}
    (h : smartResizeVideo a frames height width minPixels maxPixels
      = .ok size) : 0 < frames ∧ Merged size.1 ∧ Merged size.2 := by
  unfold smartResizeVideo at h
  obtain ⟨hvalid, h⟩ := guard_ok.mp h
  obtain ⟨-, h⟩ := guard_ok.mp h
  obtain ⟨area, harea, h⟩ := bind_ok.mp h
  obtain ⟨volume, hvolume, h⟩ := bind_ok.mp h
  rw [checkedMul_ok harea] at hvolume
  have hfactor := factor_pos
  have hpixels : 0 < frames * (height * width).toNat :=
    Nat.mul_pos (by omega)
      (Int.lt_toNat.mpr (mul_pos (by omega) (by omega)))
  exact ⟨by omega, fitPixels_merged (Except.ok.inj h)
    (checkedMul_ok hvolume) (by omega) (by omega) hpixels (by omega)
    (dvd_mul_left _ _) (dvd_mul_left _ _)⟩

end

-- ============ the media

/-- A medium of whole merged patches, and a payload of all of them. -/
structure PreparedMedia.Shape (media : PreparedMedia) : Prop where
  temporal_pos : 0 < media.grid.temporal
  height_pos : 0 < media.grid.height
  width_pos : 0 < media.grid.width
  height_merged : media.grid.height % 2 = 0
  width_merged : media.grid.width % 2 = 0
  image_single : media.modality = .image → media.grid.temporal = 1
  elements_eq : media.patchElements = media.grid.temporal.toNat
    * media.grid.height.toNat * media.grid.width.toNat * patchFeatures

theorem writePatches_ok {grid : VisionGrid} {n : Nat}
    (h : writePatches grid = .ok n) :
    n = grid.temporal.toNat * grid.height.toNat * grid.width.toNat
      * patchFeatures := by
  unfold writePatches at h
  obtain ⟨-, h⟩ := guard_ok.mp h
  obtain ⟨-, h⟩ := guard_ok.mp h
  exact (Except.ok.inj h).symm

variable {a : ResizeArithmetic} {scale : Int → Rat → Rat → Int}
  {options : ProcessorOptions} {part : MediaPart} {media : PreparedMedia}

theorem prepareImage_shape {decoded : Except DecodeError (Int × Int)}
    (h : prepareImage a options part decoded = .ok media) : media.Shape := by
  unfold prepareImage at h
  obtain ⟨sides, -, h⟩ := bind_ok.mp h
  obtain ⟨size, hsize, h⟩ := bind_ok.mp h
  obtain ⟨_, -, h⟩ := bind_ok.mp h
  obtain ⟨n, hn, h⟩ := bind_ok.mp h
  cases h
  obtain ⟨hheight, hwidth⟩ := smartResizeImage_merged hsize
  exact {
    temporal_pos := Int.one_pos
    height_pos := hheight.patches.1
    width_pos := hwidth.patches.1
    height_merged := hheight.patches.2
    width_merged := hwidth.patches.2
    image_single := fun _ => rfl
    elements_eq := writePatches_ok hn }

theorem prepareFrames_shape {stream : Stream (Int × Int)}
    (h : prepareFrames a scale options part stream = .ok media) :
    media.Shape := by
  unfold prepareFrames at h
  obtain ⟨prepared, hprepared, h⟩ := bind_ok.mp h
  obtain ⟨n, hn, h⟩ := bind_ok.mp h
  cases h
  obtain ⟨video, size, -, hsize, hcount, hsides, -, -⟩ :=
    prepareVideo_ok hprepared
  obtain ⟨hframes, hheight, hwidth⟩ := smartResizeVideo_merged hsize
  have hsegments : 0 < (video.frames.length + temporal - 1) / temporal :=
    Nat.div_pos (by omega) (by decide)
  exact {
    temporal_pos := hcount ▸ Int.natCast_pos.mpr hsegments
    height_pos := hsides ▸ hheight.patches.1
    width_pos := hsides ▸ hwidth.patches.1
    height_merged := hsides ▸ hheight.patches.2
    width_merged := hsides ▸ hwidth.patches.2
    image_single := nofun
    elements_eq := writePatches_ok hn }

/-- What the builder of a part returns is well shaped. -/
theorem prepare_shape (h : part.prepare a scale options = .ok media) :
    media.Shape := by
  unfold MediaPart.prepare at h
  split at h
  · exact prepareImage_shape h
  · exact prepareFrames_shape h

end Ginfer.Frontend.Multimodal
