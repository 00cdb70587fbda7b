/-
The decoding of videos (media/decode/decode.cpp).

What the container says of a stream, and what its decoder yields, need not
agree: the frames are sampled by the reported total, and collected from
those that come. Demuxing, decoding and the conversion of a frame are the
library's: a stream is what it reports and the frames it yields.

Rates and durations are rationals, and `nearbyint` rounds half to even;
the count of frames at the target rate, which the source cuts from a chain
of doubles, is a parameter.
-/
import Mathlib.Data.Rat.Floor
import Ginfer.Lib.Outcome

namespace Ginfer.Media

open Ginfer.Lib

-- ============ the streams

/-- What a decoding throws: its own failures, and those of the library. -/
inductive DecodeError where
  | budgetExceeded (message : String)
  | invalidArgument (message : String)
  | runtimeError (message : String)
  | library (message : String)
  deriving DecidableEq

/-- `media::decode::Policy`, without its checkpoint. -/
structure DecodePolicy where
  maxDecodedVideoPixels : Nat
  maxVideoSourceFrames : Int
  maxVideoDurationSeconds : Rat

/-- A frame, and the picture `rgb` makes of it, or what it throws. -/
structure Frame (β : Type) where
  width : Int
  height : Int
  picture : Except String β

/-- A stream: what its container reports, the frames its decoder yields,
and how the decoding ends if not at the end of the stream. -/
structure Stream (β : Type) where
  nbFrames : Int
  duration : Rat
  fps : Rat
  codedWidth : Int
  codedHeight : Int
  frames : List (Frame β)
  failure : Option String

/-- `media::decode::Video`, without the sizes of its pictures. -/
structure Video (β : Type) where
  totalFrames : Int
  fps : Rat
  duration : Rat
  indices : List Int
  frames : List β

-- ============ the sampling

/-- `std::nearbyint`. -/
def nearbyint (x : Rat) : Int :=
  let low := x.floor
  if x - low < 1 / 2 then low
  else if 1 / 2 < x - low then low + 1
  else if low % 2 = 0 then low else low + 1

/-- `count` of `sample_indices`, from the frames at the target rate. -/
def sampleCount (scaled total minFrames maxFrames : Int) : Int :=
  min (min (max scaled minFrames) maxFrames) total

/-- The indices of `sample_indices`, for a count. -/
def indicesOf (total count : Int) : List Int :=
  if count = 1 then [0]
  else (List.range count.toNat).map fun (i : Nat) =>
    nearbyint ((i : Rat) * (total - 1) / (count - 1))

/-- `sample_indices`. What the doubles of `total / source_fps * target_fps`
come to, cut to an integer, is `scale`. -/
def sampleIndices (scale : Int → Rat → Rat → Int) (total : Int)
    (sourceFps targetFps : Rat) (minFrames maxFrames : Int) :
    Except DecodeError (List Int) :=
  if total ≤ 0 ∨ sourceFps ≤ 0 ∨ targetFps ≤ 0 ∨ minFrames ≤ 0
      ∨ maxFrames < minFrames then
    .error (.invalidArgument "invalid video sampling configuration")
  else .ok (indicesOf total
    (sampleCount (scale total sourceFps targetFps) total minFrames maxFrames))

-- ============ the collection

variable {β : Type}

/-- What the decoder throws when it does not reach the end. -/
def Stream.finish (stream : Stream β) : Except DecodeError Unit :=
  match stream.failure with
  | some message => .error (.library message)
  | none => .ok ()

/-- `count_frames`. -/
def countFrames (stream : Stream β) (policy : DecodePolicy) :
    Except DecodeError Int :=
  if policy.maxVideoSourceFrames < stream.frames.length
      ∧ stream.frames ≠ [] then
    .error (.budgetExceeded "video source frame count exceeds processor limit")
  else do
    stream.finish
    return stream.frames.length

/-- The locals of the collection. -/
structure Collected (β : Type) where
  wanted : Nat := 0
  decoded : Int := 0
  retainedPixels : Nat := 0
  frames : List β := []

/-- The callback of `decode_video`: whether to go on. -/
def collectStep (policy : DecodePolicy) (indices : List Int)
    (s : Collected β) (index : Nat) (frame : Frame β) :
    Except DecodeError (Collected β × Bool) := do
  let s := { s with decoded := index + 1 }
  if indices[s.wanted]? = some (index : Int) then
    let pixels := frame.width.toNat * frame.height.toNat
    if policy.maxDecodedVideoPixels < s.retainedPixels
        ∨ policy.maxDecodedVideoPixels - s.retainedPixels < pixels then
      throw (.budgetExceeded "sampled source video pixels exceed processor limit")
    let picture ← frame.picture.mapError .library
    let s := { s with
      wanted := s.wanted + 1
      retainedPixels := s.retainedPixels + pixels
      frames := s.frames ++ [picture] }
    return (s, s.wanted ≠ indices.length)
  else return (s, s.wanted ≠ indices.length)

/-- `decoder.frames` with that callback, from a frame on. -/
def collectFrom (stream : Stream β) (policy : DecodePolicy)
    (indices : List Int) (s : Collected β) (index : Nat) :
    List (Frame β) → Except DecodeError (Collected β)
  | [] => do
    stream.finish
    return s
  | frame :: rest => do
    let (s, more) ← collectStep policy indices s index frame
    if more then collectFrom stream policy indices s (index + 1) rest
    else return s

/-- The total `decode_video` samples by: the reported frames, or the
duration in frames, or the frames counted. -/
def reportedTotal (stream : Stream β) (policy : DecodePolicy) :
    Except DecodeError Int := do
  let total :=
    if 0 < stream.nbFrames ∧ stream.nbFrames ≤ 2 ^ 31 - 1 then
      stream.nbFrames
    else 0
  let total :=
    if total = 0 ∧ 0 < stream.duration then
      nearbyint (stream.duration * stream.fps)
    else total
  if policy.maxVideoDurationSeconds < stream.duration then
    throw (.budgetExceeded "video duration exceeds processor limit")
  let total ← if total = 0 then countFrames stream policy else .ok total
  if policy.maxVideoSourceFrames < total then
    throw (.budgetExceeded "video source frame count exceeds processor limit")
  return total

/-- The failure the collection may end with. -/
def skippedFrame : DecodeError :=
  .runtimeError "video decoder skipped a requested internal frame"

/-- `decode_video`. -/
def decodeVideo (scale : Int → Rat → Rat → Int) (stream : Stream β)
    (policy : DecodePolicy) (targetFps : Rat) (minFrames maxFrames : Int) :
    Except DecodeError (Video β) := do
  let total ← reportedTotal stream policy
  let indices ←
    sampleIndices scale total stream.fps targetFps minFrames maxFrames
  let codedPixels := stream.codedWidth.toNat * stream.codedHeight.toNat
  if codedPixels ≠ 0
      ∧ policy.maxDecodedVideoPixels / codedPixels < indices.length then
    throw (.budgetExceeded "sampled source video pixels exceed processor limit")
  let s ← collectFrom stream policy indices {} 0 stream.frames
  if (s.frames.length : Int) < min minFrames total then
    throw (.runtimeError
      "video decoder produced fewer than the minimum sampled frames")
  if (indices.drop s.wanted).any (· < s.decoded) then throw skippedFrame
  return {
    totalFrames := total
    fps := stream.fps
    duration :=
      if 0 < stream.duration then stream.duration else total / stream.fps
    indices := indices
    frames := s.frames }

end Ginfer.Media
