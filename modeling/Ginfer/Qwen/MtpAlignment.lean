/-
The alignment of the MTP head with the prompt
(targets/qwen3_6: mtp_alignment.h).

The MTP head reads, beside the hidden state of a column, the embedding of
the token after it. A prefill chunk of columns `[b, b + k)` so embeds the
tokens `[b + 1, b + k + 1)`, cut at the prompt's end, and of the visual
tokens those among them. `scatter_indices` are the columns of one item's
visual tokens, in the order of its rows.

Tokens and columns are `std::uint32_t`, indices `std::int32_t`.
-/
import Ginfer.Lib.Outcome
import Ginfer.Lib.Words

namespace Ginfer.Qwen

open Ginfer.Lib

/-- `MtpAlignmentWindow`. -/
structure MtpAlignmentWindow where
  hiddenBegin : Nat
  positionBegin : Nat
  shiftedEmbeddingBegin : Nat
  columns : Nat
  finalColumnUsesGeneratedToken : Bool

/-- `plan_mtp_alignment_window`. -/
def planMtpAlignmentWindow (promptTokens chunkBegin columns : Nat) :
    Except Exception MtpAlignmentWindow :=
  if columns = 0 ∨ promptTokens ≤ chunkBegin
      ∨ promptTokens - chunkBegin < columns then
    .error (.invalidArgument "MTP alignment window is outside the prompt")
  else if chunkBegin = 2 ^ 32 - 1 then
    .error (.overflowError "MTP shifted embedding position exceeds uint32")
  else
    .ok { hiddenBegin := chunkBegin
          positionBegin := chunkBegin
          shiftedEmbeddingBegin := chunkBegin + 1
          columns := columns
          finalColumnUsesGeneratedToken :=
            decide (columns = promptTokens - chunkBegin) }

/-- `MtpVisualOverlap`. -/
structure MtpVisualOverlap where
  sourceBegin : Nat
  destinationColumns : List Int

/-- `size`. -/
def MtpVisualOverlap.size (o : MtpVisualOverlap) : Nat :=
  o.destinationColumns.length

/-- `static_cast<std::int32_t>` of a `std::uint32_t`. -/
def castInt32 (value : Nat) : Int := Int.bmod value (2 ^ 32)

/-- `std::lower_bound` on a sorted range: how many values stand before
the first one that is not less. -/
def lowerBound (values : List Int) (value : Int) : Nat :=
  (values.takeWhile fun v => decide (v < value)).length

/-- `shifted_visual_overlap`. -/
def shiftedVisualOverlap (scatterIndices : List Int) (promptTokens : Nat)
    (window : MtpAlignmentWindow) : Except Exception MtpVisualOverlap :=
  if ¬ scatterIndices.Pairwise (· < ·) then
    .error (.invalidArgument
      "MTP visual scatter indices must be sorted and unique")
  else if scatterIndices.head?.any fun front => decide (front < 0) then
    .error (.invalidArgument "MTP visual scatter index is negative")
  else if window.columns = 0 ∨ promptTokens < window.shiftedEmbeddingBegin
      ∨ u32Sub promptTokens window.hiddenBegin < window.columns
      ∨ window.shiftedEmbeddingBegin ≠ u32Add window.hiddenBegin 1 then
    .error (.invalidArgument
      "MTP visual overlap received an invalid alignment window")
  else if scatterIndices.isEmpty
      ∨ promptTokens ≤ window.shiftedEmbeddingBegin then
    .ok ⟨0, []⟩
  else
    let shiftedEnd := min promptTokens
      (window.shiftedEmbeddingBegin + window.columns)
    let first := lowerBound scatterIndices
      (castInt32 window.shiftedEmbeddingBegin)
    let count := lowerBound (scatterIndices.drop first) (castInt32 shiftedEnd)
    .ok ⟨first, ((scatterIndices.drop first).take count).map fun index =>
      index - castInt32 window.shiftedEmbeddingBegin⟩

/-- The chunks of a prefill, one after the other from the column `begin`
on: the window of each, and the overlap of one item's visual tokens with
it. -/
def chunkOverlaps (scatterIndices : List Int) (promptTokens : Nat) :
    (begin : Nat) → List Nat →
      Except Exception (List (MtpAlignmentWindow × MtpVisualOverlap))
  | _, [] => .ok []
  | begin, columns :: rest =>
    match planMtpAlignmentWindow promptTokens begin columns with
    | .error e => .error e
    | .ok window =>
      match shiftedVisualOverlap scatterIndices promptTokens window with
      | .error e => .error e
      | .ok overlap =>
        (chunkOverlaps scatterIndices promptTokens (begin + columns)
          rest).map ((window, overlap) :: ·)

end Ginfer.Qwen
