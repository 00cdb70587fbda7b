/-
The preparation of media (targets/qwen3_6/impl/frontend/processor.cpp).

A picture is rounded to whole merged patches, both sides, and scaled into
the bounds on its pixels; then its patches are counted against the budgets
and written. What the library makes of the bytes is an argument: the sides
of a decoded image, the frames of a stream. Sides are integers without a
width: the limits on decoded pixels keep them far below it.

The roots and quotients of a resize are doubles in the source. Where a
side falls between two factors is left to them, as `ResizeArithmetic`;
that a positive side stays positive when it is rounded up is all that is
used.
-/
import Mathlib.Data.Rat.Floor
import Ginfer.Frontend.Video
import Ginfer.Qwen.Prompt

namespace Ginfer.Frontend.Multimodal

open Ginfer.Lib
open Ginfer.Media (DecodeError DecodePolicy Stream)
open Ginfer.Qwen (PromptModality VisionGrid VisionItem)

-- ============ the constants

/-- `kMerge`. -/
def merge : Nat := 2

/-- `kFactor`. -/
def factor : Int := patch * merge

/-- `kPatchFeatures`. -/
def patchFeatures : Nat := 3 * temporal * 16 * 16

/-- `kMaximumVisionTokens`. -/
def maximumVisionTokens : Nat := 32768

/-- `kRawPatchesPerVisionToken`. -/
def rawPatchesPerVisionToken : Nat := 4

/-- What of `ProcessorOptions` is read here. -/
structure ProcessorOptions where
  maxEncodedMediaBytes : Nat
  maxRawPatches : Nat
  maxVisionTokens : Nat
  imageMinPixels : Nat := 32 * 32
  imageMaxPixels : Nat := 1024 * 1024
  videoMinPixels : Nat := 128 * 32 * 32
  videoMaxPixels : Nat := 4 * 1024 * 1024
  decode : DecodePolicy := ⟨128 * 1024 * 1024, 100000, 600⟩
  video : VideoOptions := ⟨2, 4, 768⟩

/-- The budgets the frontend gives its processors. -/
def visionBudget (maxContext maxEncodedMediaBytes : Nat) :
    ProcessorOptions where
  maxEncodedMediaBytes := maxEncodedMediaBytes
  maxRawPatches := min maxContext maximumVisionTokens * rawPatchesPerVisionToken
  maxVisionTokens := min maxContext maximumVisionTokens

-- ============ the budgets

/-- `checked_mul`. -/
def checkedMul (a b : Nat) (label : String) : Except Exception Nat :=
  if a ≠ 0 ∧ (2 ^ 64 - 1) / a < b then
    .error (.invalidArgument (label ++ " overflow"))
  else .ok (a * b)

/-- The counts of `PreprocessStats` the budgets are about. -/
structure PreprocessStats where
  rawPatches : Nat
  visionTokens : Nat

/-- `add_budget`. -/
def addBudget (stats : PreprocessStats) (grid : VisionGrid) :
    Except Exception PreprocessStats := do
  let spatial ← checkedMul grid.height.toNat grid.width.toNat
    "vision spatial grid"
  let patches ← checkedMul grid.temporal.toNat spatial "vision raw patches"
  let pairs ← checkedMul spatial spatial "vision attention pairs"
  let _ ← checkedMul grid.temporal.toNat pairs "vision attention pairs"
  .ok { rawPatches := stats.rawPatches + patches
        visionTokens := stats.visionTokens + patches / (merge * merge) }

/-- `enforce_media_resource_limits`. -/
def enforceMediaResourceLimits (stats : PreprocessStats)
    (options : ProcessorOptions) : Except Exception Unit :=
  if options.maxRawPatches < stats.rawPatches then
    .error (.runtimeError "vision raw patches exceed processor budget")
  else if options.maxVisionTokens < stats.visionTokens then
    .error (.runtimeError "vision tokens exceed processor budget")
  else .ok ()

-- ============ the sides

/-- A number rounded to an integer, a tie to the even one (`round_even`). -/
def roundEven (x : Rat) : Int :=
  let below := ⌊x⌋
  if x - below < 1 / 2 then below
  else if 1 / 2 < x - below then below + 1
  else if below % 2 = 0 then below
  else below + 1

/-- The doubles of a resize, cut to whole factors. -/
structure ResizeArithmetic where
  /-- `floor(side / beta / kFactor)` with `beta = sqrt(pixels / bound)`. -/
  shrink (side : Int) (pixels bound : Nat) : Int
  /-- `ceil(side * beta / kFactor)` with `beta = sqrt(bound / pixels)`. -/
  grow (side : Int) (pixels bound : Nat) : Int
  grow_pos : ∀ side pixels bound, 0 < side → 0 < pixels → 0 < bound →
    0 < grow side pixels bound

/-- The end of `smart_resize_image` and `smart_resize_video`: the rounded
sides `size`, of `volume` pixels, scaled into the bounds. -/
def fitPixels (a : ResizeArithmetic) (height width : Int) (pixels : Nat)
    (size : Int × Int) (volume minPixels maxPixels : Nat) : Int × Int :=
  if maxPixels < volume then
    (max factor (a.shrink height pixels maxPixels * factor),
      max factor (a.shrink width pixels maxPixels * factor))
  else if volume < minPixels then
    (a.grow height pixels minPixels * factor,
      a.grow width pixels minPixels * factor)
  else size

/-- `smart_resize_image`. -/
def smartResizeImage (a : ResizeArithmetic) (height width : Int)
    (minPixels maxPixels : Nat) : Except Exception (Int × Int) := do
  if height ≤ 0 ∨ width ≤ 0 ∨ minPixels = 0 ∨ maxPixels < minPixels then
    throw (.invalidArgument "invalid image resize configuration")
  if 200 * min height width < max height width then
    throw (.invalidArgument "image aspect ratio must be at most 200")
  let h := roundEven (height / factor) * factor
  let w := roundEven (width / factor) * factor
  let area ← checkedMul (max h 0).toNat (max w 0).toNat "image area"
  return fitPixels a height width (height * width).toNat (h, w) area
    minPixels maxPixels

/-- `smart_resize_video`. -/
def smartResizeVideo (a : ResizeArithmetic) (frames : Nat)
    (height width : Int) (minPixels maxPixels : Nat) :
    Except Exception (Int × Int) := do
  if frames = 0 ∨ height < factor ∨ width < factor ∨ minPixels = 0
      ∨ maxPixels < minPixels then
    throw (.invalidArgument "invalid video resize configuration")
  if 200 * min height width < max height width then
    throw (.invalidArgument "video aspect ratio must be at most 200")
  let h := roundEven (height / factor) * factor
  let w := roundEven (width / factor) * factor
  let paddedFrames := (frames + temporal - 1) / temporal * temporal
  let area ← checkedMul h.toNat w.toNat "video area"
  let volume ← checkedMul paddedFrames area "video pixels"
  return fitPixels a height width (frames * (height * width).toNat) (h, w)
    volume minPixels maxPixels

-- ============ the patches

/-- The elements the loops of the patch writer write for a grid. -/
def writtenElements (grid : VisionGrid) : Nat :=
  grid.temporal.toNat * ((grid.height / merge).toNat
    * ((grid.width / merge).toNat * (merge * (merge * patchFeatures))))

/-- The patch writer, into a payload for all patches of the grid: its
size. -/
def writePatches (grid : VisionGrid) : Except Exception Nat :=
  let elements := grid.temporal.toNat * grid.height.toNat * grid.width.toNat
    * patchFeatures
  if elements < writtenElements grid then
    .error (.logicError "Vision patch writer exceeded its allocation")
  else if writtenElements grid ≠ elements then
    .error (.logicError "Vision patch writer left a short payload")
  else .ok elements

-- ============ the media

/-- What the library makes of the bytes of a part: the height and width of
an image, or the stream of a video, with the sides of its pictures. -/
inductive MediaSource where
  | image (decoded : Except DecodeError (Int × Int))
  | video (stream : Stream (Int × Int))

/-- A media part of a message: the size of its bytes and their digest, and
what `ConcurrentMediaBudget::claim` and `allocate_payload` throw; both
depend on what is prepared beside it. -/
structure MediaPart where
  bytes : Nat
  contentDigest : Nat
  source : MediaSource
  admitted : Except Exception Unit

/-- What `prepare_image` and `prepare_video` return: the item without its
place in the prompt, and the size of its payload. -/
structure PreparedMedia where
  modality : PromptModality
  grid : VisionGrid
  contentDigest : Nat
  timestamps : List Rat
  patchElements : Nat

/-- What a failed decoding leaves `process` as. -/
def decodeException : DecodeError → Exception
  | .budgetExceeded message => .runtimeError message
  | .invalidArgument message => .invalidArgument message
  | .runtimeError message => .runtimeError message
  | .library message => .runtimeError message

/-- The budgets of one item, and of the request. -/
def claimGrid (options : ProcessorOptions) (part : MediaPart)
    (grid : VisionGrid) : Except Exception Unit := do
  let stats ← addBudget ⟨0, 0⟩ grid
  enforceMediaResourceLimits stats options
  part.admitted

/-- `prepare_image`. -/
def prepareImage (a : ResizeArithmetic) (options : ProcessorOptions)
    (part : MediaPart) (decoded : Except DecodeError (Int × Int)) :
    Except Exception PreparedMedia := do
  let (height, width) ← decoded.mapError decodeException
  let size ← smartResizeImage a height width options.imageMinPixels
    options.imageMaxPixels
  let grid : VisionGrid := ⟨1, size.1 / patch, size.2 / patch⟩
  claimGrid options part grid
  let patchElements ← writePatches grid
  return { modality := .image
           grid := grid
           contentDigest := part.contentDigest
           timestamps := []
           patchElements := patchElements }

/-- `prepare_video`, and its patches. -/
def prepareFrames (a : ResizeArithmetic) (scale : Int → Rat → Rat → Int)
    (options : ProcessorOptions) (part : MediaPart)
    (stream : Stream (Int × Int)) : Except Exception PreparedMedia := do
  let resize := fun frames : List (Int × Int) =>
    let (height, width) := frames.headD (0, 0)
    smartResizeVideo a frames.length height width options.videoMinPixels
      options.videoMaxPixels
  let claim := fun grid : Int × Int × Int =>
    claimGrid options part ⟨grid.1, grid.2.1, grid.2.2⟩
  let prepared ← prepareVideo decodeException resize claim
    (fun size _ => size) scale stream options.decode options.video
  let grid : VisionGrid :=
    ⟨prepared.grid.1, prepared.grid.2.1, prepared.grid.2.2⟩
  let patchElements ← writePatches grid
  return { modality := .video
           grid := grid
           contentDigest := part.contentDigest
           timestamps := prepared.timestamps
           patchElements := patchElements }

/-- The builder of a part. -/
def MediaPart.prepare (a : ResizeArithmetic) (scale : Int → Rat → Rat → Int)
    (options : ProcessorOptions) (part : MediaPart) :
    Except Exception PreparedMedia :=
  match part.source with
  | .image decoded => prepareImage a options part decoded
  | .video stream => prepareFrames a scale options part stream

end Ginfer.Frontend.Multimodal
