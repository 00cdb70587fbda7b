/-
The preparation of videos (targets/qwen3_6/impl/frontend/processor.cpp).

A temporal segment is two frames. A video of an odd number of frames shows
its last one twice; the timestamps are taken from the indices the video
was sampled by. The sizes, the budgets and the resizing are arguments: the
frames are resized one by one.
-/
import Ginfer.Media.Decode

namespace Ginfer.Frontend

open Ginfer.Media

variable {β γ ε : Type}

/-- `kTemporal`. -/
def temporal : Nat := 2

/-- `kPatch`. -/
def patch : Int := 16

/-- A vector, with its last element once more where its size is odd. -/
def padTemporal {α : Type} (l : List α) : List α :=
  if l.length % temporal ≠ 0 then l ++ l.getLast?.toList else l

/-- The elements `2 * t` and `2 * t + 1`, for `t` below a bound. -/
def temporalPairs {α : Type} : Nat → List α → List (α × α)
  | gt + 1, a :: b :: rest => (a, b) :: temporalPairs gt rest
  | _, _ => []

/-- What `prepare_video` returns: the grid, the timestamps, and the frames
its patches are written from. -/
structure PreparedVideo (γ : Type) where
  grid : Int × Int × Int
  timestamps : List Rat
  segments : List (γ × γ)
  deriving DecidableEq

/-- The options of videos. -/
structure VideoOptions where
  fps : Rat
  minFrames : Int
  maxFrames : Int

/-- `prepare_video`, given what a failed decoding is thrown as,
`smart_resize_video` of the frames, the budgets and `resize_bicubic`. -/
def prepareVideo (rethrow : DecodeError → ε)
    (smartResize : List β → Except ε (Int × Int))
    (claim : Int × Int × Int → Except ε Unit)
    (resize : Int × Int → β → γ) (scale : Int → Rat → Rat → Int)
    (stream : Stream β) (policy : DecodePolicy) (options : VideoOptions) :
    Except ε (PreparedVideo γ) := do
  let video ← (decodeVideo scale stream policy options.fps options.minFrames
    options.maxFrames).mapError rethrow
  let size ← smartResize video.frames
  let gt := (video.frames.length + temporal - 1) / temporal
  let grid := ((gt : Int), size.1 / patch, size.2 / patch)
  claim grid
  let frames := padTemporal (video.frames.map (resize size))
  let timestampIndices := padTemporal video.indices
  return {
    grid := grid
    timestamps := (temporalPairs gt timestampIndices).map fun pair =>
      ((pair.1 + pair.2 : Int) : Rat) / (2 * video.fps)
    segments := temporalPairs gt frames }

end Ginfer.Frontend
