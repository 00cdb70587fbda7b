/-
Prepared prompts, their resident identity, and the Vision control built
from them (targets/qwen3_6: prepared_prompt.h, prefix_identity.{h,cpp},
impl/vision/control.cpp).

# What is modelled

A prompt is what the frontend's processor hands to the runtime: token
ids, one type per token (0 for text, the modality of a Vision item
otherwise), three rope positions per token, and the Vision items with the
spans of tokens that consume them. A lane remembers the identity of what
it executed — types, positions and items; the ids are the lane's ledger —
so that a later prompt can be compared with it (`prefixMatches`).

Content digests are numbers, timestamps rationals. A media payload is
`none` once released and otherwise its `patch_elements`; the patches
themselves are only read by the device. Of `build_vision_control` the
checks and the fields the host reads afterwards are here; the position
tables it also fills for the device are not.
-/
import Ginfer.Lib.Outcome

namespace Ginfer.Qwen

open Ginfer.Lib

-- ============ the prompt

/-- `PromptModality`. -/
inductive PromptModality where
  | image
  | video
  deriving DecidableEq

/-- The token type of a modality's columns. -/
def PromptModality.code : PromptModality → Nat
  | .image => 1
  | .video => 2

/-- `VisionGrid`. -/
structure VisionGrid where
  temporal : Int
  height : Int
  width : Int
  deriving DecidableEq

/-- `TokenSpan`. -/
structure TokenSpan where
  begin : Nat
  count : Nat
  deriving DecidableEq

/-- The index after a span's last token. -/
def TokenSpan.end (s : TokenSpan) : Nat := s.begin + s.count

/-- `VisionItem`. Its `DecidableEq` is `same_item`. -/
structure VisionItem where
  modality : PromptModality
  grid : VisionGrid
  patchBegin : Nat
  patchCount : Nat
  contentDigest : Nat
  timestamps : List Rat
  tokenSpans : List TokenSpan
  deriving DecidableEq

/-- `RewriteCheckpointKind`. -/
inductive RewriteCheckpointKind where
  | turnClosure
  | responseReplay
  deriving DecidableEq

/-- `RewriteCheckpointSpec`. -/
structure RewriteCheckpointSpec where
  kind : RewriteCheckpointKind
  frontier : Nat
  deriving DecidableEq

/-- `PreparedPromptData`, with the two counts of its `PrepareStats` that
the Vision control is checked against. -/
structure PreparedPromptData where
  tokenIds : List Int
  tokenTypes : List Nat
  /-- axis after axis -/
  positions : List Int
  ropeDelta : Int
  mediaPayloads : List (Option Nat)
  visionItems : List VisionItem
  reusable : Bool
  rewriteCheckpoint : Option RewriteCheckpointSpec
  rawPatches : Nat
  visionTokens : Nat

namespace PreparedPromptData

/-- `has_media`. -/
def hasMedia (p : PreparedPromptData) : Bool := !p.visionItems.isEmpty

/-- `position_axis`. -/
def positionAxis (p : PreparedPromptData) (axis : Fin 3) : List Int :=
  (p.positions.drop (axis.val * p.tokenIds.length)).take p.tokenIds.length

/-- `release_all_media_payloads`. -/
def releaseAllMediaPayloads (p : PreparedPromptData) : PreparedPromptData :=
  { p with mediaPayloads := p.mediaPayloads.map fun _ => none }

end PreparedPromptData

/-- `kPreparedVisionPatchFeatures`. -/
def preparedVisionPatchFeatures : Nat := 3 * 2 * 16 * 16

-- ============ the resident identity

/-- `ResidentPrefixIdentity`. -/
structure ResidentPrefixIdentity where
  tokenTypes : List Nat
  positions : Fin 3 → List Int
  visionItems : List VisionItem

namespace ResidentPrefixIdentity

/-- The cleared identity. -/
def empty : ResidentPrefixIdentity where
  tokenTypes := []
  positions := fun _ => []
  visionItems := []

/-- `size`. -/
def size (r : ResidentPrefixIdentity) : Nat := r.tokenTypes.length

/-- `assign`. -/
def assign (p : PreparedPromptData) : Except Exception ResidentPrefixIdentity :=
  if p.tokenTypes.length ≠ p.tokenIds.length
      ∨ p.positions.length ≠ 3 * p.tokenIds.length then
    .error (.invalidArgument
      "prepared prompt identity metadata has an invalid shape")
  else
    .ok { tokenTypes := p.tokenTypes
          positions := p.positionAxis
          visionItems := p.visionItems }

/-- One iteration of `append_generated`. -/
def appendOne (r : ResidentPrefixIdentity) (ropeDelta : Int) :
    Except Exception ResidentPrefixIdentity :=
  if 2 ^ 31 ≤ r.size then
    .error (.overflowError "generated prefix position exceeds int32")
  else if (r.size : Int) + ropeDelta < -(2 ^ 31)
      ∨ 2 ^ 31 ≤ (r.size : Int) + ropeDelta then
    .error (.overflowError "generated MRoPE position exceeds int32")
  else
    .ok { r with
      tokenTypes := r.tokenTypes ++ [0]
      positions := fun axis =>
        r.positions axis ++ [(r.size : Int) + ropeDelta] }

/-- `append_generated`. -/
def appendGenerated (ropeDelta : Int) :
    Nat → ResidentPrefixIdentity → Except Exception ResidentPrefixIdentity
  | 0, r => .ok r
  | count + 1, r =>
    match r.appendOne ropeDelta with
    | .error e => .error e
    | .ok r => appendGenerated ropeDelta count r

end ResidentPrefixIdentity

/-- `prefix_item_count`: how many items end at or before `tokens`, when no
item is divided and those after the frontier come last. -/
def prefixItemCount (tokens : Nat) :
    (sawSuffix : Bool) → List VisionItem → Option Nat
  | _, [] => some 0
  | sawSuffix, item :: rest =>
    match item.tokenSpans.head?, item.tokenSpans.getLast? with
    | some first, some last =>
      if first.count = 0 ∨ last.count = 0 then none
      else if last.end ≤ tokens then
        if sawSuffix then none
        else (prefixItemCount tokens false rest).map (· + 1)
      else if tokens ≤ first.begin then prefixItemCount tokens true rest
      else none
    | _, _ => none

/-- `ResidentPrefixIdentity::matches`. -/
def ResidentPrefixIdentity.matches (r : ResidentPrefixIdentity)
    (p : PreparedPromptData) (count : Nat) : Bool :=
  if p.tokenIds.length < count ∨ r.size < count
      ∨ p.tokenTypes.length ≠ p.tokenIds.length
      ∨ p.positions.length ≠ 3 * p.tokenIds.length then false
  else
    decide (p.tokenTypes.take count = r.tokenTypes.take count)
      && decide (∀ axis, (p.positionAxis axis).take count
        = (r.positions axis).take count)
      && match prefixItemCount count false p.visionItems,
          prefixItemCount count false r.visionItems with
        | some incoming, some resident =>
          decide (incoming = resident)
            && decide (p.visionItems.take incoming = r.visionItems.take incoming)
        | _, _ => false

/-- `prefix_matches`. -/
def prefixMatches (p : PreparedPromptData) (residentTokens : List Int)
    (r : ResidentPrefixIdentity) (count : Nat) : Bool :=
  if p.tokenIds.length < count ∨ residentTokens.length < count then false
  else
    decide (p.tokenIds.take count = residentTokens.take count)
      && r.matches p count

-- ============ the Vision control

/-- The fields of `VisionItemControl` the host reads. -/
structure VisionItemControl where
  modality : PromptModality
  grid : VisionGrid
  patchBegin : Nat
  patchCount : Nat
  segmentLength : Nat
  segmentCount : Nat
  cuSeqlens : List Nat
  mergedCount : Nat
  scatterIndices : List Nat

/-- The span loop of `build_vision_control` for one item: the columns its
spans cover, in order. -/
def controlSpans (types : List Nat) (expected : Nat) :
    List TokenSpan → (nextSpanBegin : Nat) → (scatter : List Nat) →
      Except Exception (List Nat)
  | [], _, scatter => .ok scatter
  | span :: rest, nextSpanBegin, scatter =>
    if span.count = 0 ∨ types.length < span.begin
        ∨ types.length - span.begin < span.count then
      .error (.invalidArgument "vision control token span exceeds prompt")
    else if span.begin < nextSpanBegin then
      .error (.invalidArgument "vision control token spans are not ordered")
    else if !((types.drop span.begin).take span.count).all
        (fun value => value == expected) then
      .error (.invalidArgument "vision control token span modality mismatch")
    else if 2 ^ 31 < span.end then
      .error (.overflowError "vision control scatter index exceeds int32")
    else
      controlSpans types expected rest span.end
        (scatter ++ List.range' span.begin span.count)

/-- The control of one item; `patchCursor` and `nextSpanBegin` are where
the items before it ended. -/
def controlItem (types : List Nat) (patchCursor nextSpanBegin : Nat)
    (item : VisionItem) : Except Exception VisionItemControl := do
  let t := item.grid.temporal
  let h := item.grid.height
  let w := item.grid.width
  if t ≤ 0 ∨ h ≤ 0 ∨ w ≤ 0 ∨ h % 2 ≠ 0 ∨ w % 2 ≠ 0 then
    throw (.invalidArgument
      ("vision control grid must be positive and merge-aligned: "
        ++ toString t ++ "x" ++ toString h ++ "x" ++ toString w))
  let itemPatches := t.toNat * h.toNat * w.toNat
  if item.patchBegin ≠ patchCursor ∨ item.patchCount ≠ itemPatches then
    throw (.invalidArgument "vision control patch ranges are not canonical")
  if item.tokenSpans.length
      ≠ (if item.modality = .video then t.toNat else 1) then
    throw (.invalidArgument
      "vision control token spans do not match modality grid")
  let scatter ← controlSpans types item.modality.code item.tokenSpans
    nextSpanBegin []
  if scatter.length ≠ itemPatches / 4 then
    throw (.invalidArgument
      "vision control token spans do not cover merged patches")
  if 2 ^ 31 ≤ itemPatches then
    throw (.overflowError "vision control cu_seqlens exceeds int32")
  return { modality := item.modality
           grid := item.grid
           patchBegin := item.patchBegin
           patchCount := item.patchCount
           segmentLength := h.toNat * w.toNat
           segmentCount := t.toNat
           cuSeqlens := (List.range (t.toNat + 1)).map (· * (h.toNat * w.toNat))
           mergedCount := scatter.length
           scatterIndices := scatter }

/-- The item loop of `build_vision_control`. -/
def controlItems (types : List Nat) :
    List VisionItem → (patchCursor tokenCursor nextSpanBegin : Nat) →
      Except Exception (List VisionItemControl × Nat × Nat)
  | [], patchCursor, tokenCursor, _ => .ok ([], patchCursor, tokenCursor)
  | item :: rest, patchCursor, tokenCursor, nextSpanBegin =>
    match controlItem types patchCursor nextSpanBegin item with
    | .error e => .error e
    | .ok control =>
      let next := (control.scatterIndices.getLast?.map (· + 1)).getD 0
      match controlItems types rest (patchCursor + control.patchCount)
          (tokenCursor + control.mergedCount) next with
      | .error e => .error e
      | .ok (controls, patches, tokens) =>
        .ok (control :: controls, patches, tokens)

/-- `build_vision_control`. -/
def buildVisionControl (p : PreparedPromptData) :
    Except Exception (List VisionItemControl) :=
  if p.tokenIds.length ≠ p.tokenTypes.length then
    .error (.invalidArgument "vision control token types must cover the prompt")
  else
    match controlItems p.tokenTypes p.visionItems 0 0 0 with
    | .error e => .error e
    | .ok (controls, patches, tokens) =>
      if patches ≠ p.rawPatches ∨ tokens ≠ p.visionTokens then
        .error (.invalidArgument
          "vision control metadata does not cover prepared prompt")
      else .ok controls

end Ginfer.Qwen
