/-
The multimodal processor (targets/qwen3_6/impl/frontend/processor.cpp).

`process` renders a conversation, takes its media as the cache returns
them, writes as many pad tokens into the text as each medium has merged
patches, tokenizes, and gives every token its three rope positions. The
pads are bound to the media twice: `expandPlaceholders` goes through the
text medium by medium, `assignPositions` through the tokens run by run.

Cancellation and the timings are left out, and so is the cache: it keeps
what the builder of a part returned. Timestamps are rationals, printed as
the stream prints a double.
-/
import Ginfer.Frontend.ChatTemplate
import Ginfer.Frontend.Prepare
import Ginfer.Frontend.Tokenizer

namespace Ginfer.Frontend.Multimodal

open Ginfer.Lib List
open Ginfer.Frontend.ChatTemplate
open Ginfer.Qwen (PromptModality VisionGrid VisionItem TokenSpan
  PreparedPromptData RewriteCheckpointSpec)

/-- There are axes: the positions have three. -/
theorem axes_ne : NeZero 3 := ⟨by decide⟩

attribute [local instance] axes_ne

-- ============ the constants

/-- `kImageToken`. -/
def imageToken : Int := 248056

/-- `kVideoToken`. -/
def videoToken : Int := 248057

/-- `kMinimumRawPatchesPerItem`. -/
def minimumRawPatchesPerItem : Nat := merge * merge

/-- `kImagePad`. -/
def imagePad : Bytes := ascii "<|image_pad|>"

/-- `kVideoPad`. -/
def videoPad : Bytes := ascii "<|video_pad|>"

/-- `kVisionStart`. -/
def visionStart : Bytes := ascii "<|vision_start|>"

/-- `kVisionEnd`. -/
def visionEnd : Bytes := ascii "<|vision_end|>"

-- ============ the media

/-- `media_parts`: how many there are. -/
def mediaParts : List ChatMessage → Except Exception Nat
  | [] => .ok 0
  | message :: rest =>
    if isInstructionRole message.role then
      if message.hasMedia then
        .error (.invalidArgument
          "system and developer messages cannot contain images or videos")
      else mediaParts rest
    else (mediaParts rest).map
      (message.parts.countP (fun
        | .text _ => false
        | .image | .video => true) + ·)

/-- The item of a prepared medium; it has no tokens yet. -/
def PreparedMedia.item (media : PreparedMedia) (patchBegin : Nat) :
    VisionItem where
  modality := media.modality
  grid := media.grid
  patchBegin := patchBegin
  patchCount := media.patchElements / patchFeatures
  contentDigest := media.contentDigest
  timestamps := media.timestamps
  tokenSpans := []

/-- The loop over the pending media: the items and their payloads, where
the last one's patches end, and the counts. -/
def takeMedia (a : ResizeArithmetic) (scale : Int → Rat → Rat → Int)
    (options : ProcessorOptions) :
    List MediaPart → (patchCursor : Nat) → PreprocessStats →
      Except Exception (List VisionItem × List Nat × Nat × PreprocessStats)
  | [], patchCursor, stats => .ok ([], [], patchCursor, stats)
  | part :: rest, patchCursor, stats => do
    let media ← part.prepare a scale options
    if media.patchElements % patchFeatures ≠ 0 then
      throw (.logicError "preprocessed patch buffer is not row aligned")
    let item := media.item patchCursor
    let stats ← addBudget stats item.grid
    enforceMediaResourceLimits stats options
    let (items, payloads, cursor, stats) ←
      takeMedia a scale options rest (patchCursor + item.patchCount) stats
    return (item :: items, media.patchElements :: payloads, cursor, stats)

-- ============ the placeholders

/-- `repeat`. -/
def repeatText (value : Bytes) (count : Nat) : Except Exception Bytes :=
  if (2 ^ 64 - 1) / value.length < count then
    .error (.invalidArgument "vision placeholder expansion is too large")
  else .ok (replicate count value).flatten

/-- `std::fixed << std::setprecision(1)`. -/
def fixedTenth (x : Rat) : Bytes :=
  let tenths := (roundEven (|x| * 10)).toNat
  (if x < 0 then ascii "-" else []) ++ ascii (toString (tenths / 10))
    ++ ascii "." ++ ascii (toString (tenths % 10))

/-- `frame_tokens`. -/
def frameTokens (grid : VisionGrid) : Nat :=
  grid.height.toNat / merge * (grid.width.toNat / merge)

/-- The timestamp loop of `placeholder`. -/
def videoPlaceholder (tokens : Nat) : List Rat → Except Exception Bytes
  | [] => .ok []
  | timestamp :: rest => do
    let pads ← repeatText videoPad tokens
    let more ← videoPlaceholder tokens rest
    return ascii "<" ++ fixedTenth timestamp ++ ascii " seconds>"
      ++ visionStart ++ pads ++ visionEnd ++ more

/-- `placeholder`. -/
def placeholder (item : VisionItem) : Except Exception Bytes :=
  match item.modality with
  | .image => repeatText imagePad (frameTokens item.grid)
  | .video =>
    if item.timestamps.length ≠ item.grid.temporal.toNat then
      .error (.logicError "video timestamp count does not match grid")
    else videoPlaceholder (frameTokens item.grid) item.timestamps

/-- The pad of a modality. -/
def padOf : PromptModality → Bytes
  | .image => imagePad
  | .video => videoPad

/-- The pad of the other modality. -/
def otherPadOf : PromptModality → Bytes
  | .image => videoPad
  | .video => imagePad

/-- `std::string::find` from an offset on. -/
def findFrom (text pattern : Bytes) (start : Nat) : Option Nat :=
  (find (text.drop start) pattern).map (start + ·)

/-- What a replacement at `position` does to the checkpoint. -/
def relocate (checkpoint : Option RewriteCheckpointByteSpec)
    (position needle replacement : Nat) :
    Except Exception (Option RewriteCheckpointByteSpec) :=
  match checkpoint with
  | none => .ok none
  | some c =>
    if position < c.offset ∧ c.offset < position + needle then
      .error (.logicError "rewrite checkpoint intersects a media placeholder")
    else if position + needle ≤ c.offset then
      .ok (some { c with offset := c.offset - needle + replacement })
    else .ok (some c)

/-- The item loop of `expand_placeholders`, from the offset `search` on,
and the search that follows it. -/
def expandFrom :
    List VisionItem → (search : Nat) → RenderedChat →
      Except Exception RenderedChat
  | [], search, rendered =>
    if (findFrom rendered.text imagePad search).isSome
        || (findFrom rendered.text videoPad search).isSome then
      .error (.invalidArgument "rendered chat has unbound vision placeholders")
    else .ok rendered
  | item :: rest, search, rendered =>
    match findFrom rendered.text (padOf item.modality) search with
    | none =>
      .error (.invalidArgument
        "chat media order does not match rendered placeholders")
    | some position =>
      if (findFrom rendered.text (otherPadOf item.modality) search).any
          (· < position) then
        .error (.invalidArgument
          "chat media order does not match rendered placeholders")
      else do
        let needle := (padOf item.modality).length
        let replacement ← placeholder item
        let checkpoint ← relocate rendered.rewriteCheckpoint position
          needle replacement.length
        expandFrom rest (position + replacement.length)
          { text := rendered.text.take position ++ replacement
              ++ rendered.text.drop (position + needle)
            rewriteCheckpoint := checkpoint }

/-- `expand_placeholders`. -/
def expandPlaceholders (rendered : RenderedChat)
    (items : List VisionItem) : Except Exception RenderedChat :=
  expandFrom items 0 rendered

-- ============ the tokens

/-- The checkpoint's kind, as the runtime has it. -/
def checkpointKind : ChatTemplate.RewriteCheckpointKind →
    Qwen.RewriteCheckpointKind
  | .turnClosure => .turnClosure
  | .responseReplay => .responseReplay

/-- `EncodedChat`. -/
structure EncodedChat where
  inputIds : List TokenId
  rewriteCheckpoint : Option RewriteCheckpointSpec

/-- `encode_rendered_chat`. -/
def encodeRenderedChat (v : Vocabulary) (u : UnicodeTables)
    (rendered : RenderedChat) : Except Exception EncodedChat := do
  let inputIds ← v.encodeText u rendered.text true
  match rendered.rewriteCheckpoint with
  | none => return { inputIds := inputIds, rewriteCheckpoint := none }
  | some c =>
    if rendered.text.length < c.offset then
      throw (.logicError "rewrite checkpoint byte offset exceeds rendered chat")
    let front ← v.encodeText u (rendered.text.take c.offset) true
    if front.isEmpty || !front.isPrefixOf inputIds then
      throw (.logicError "rewrite checkpoint is not an exact token prefix")
    if 2 ^ 32 - 1 < front.length then
      throw (.overflowError "rewrite checkpoint token frontier exceeds uint32")
    return { inputIds := inputIds
             rewriteCheckpoint := some
               { kind := checkpointKind c.kind
                 frontier := front.length } }

/-- The type of a token. -/
def tokenType (id : TokenId) : Nat :=
  if id = imageToken then PromptModality.image.code
  else if id = videoToken then PromptModality.video.code
  else 0

-- ============ the positions

/-- What `assign_positions` carries from run to run. -/
structure AssignState where
  begin : Nat
  positions : Fin 3 → List Int
  imageIndex : Nat
  videoIndex : Nat
  videoT : Nat
  current : Int
  maximum : Int
  items : List VisionItem

/-- Where it starts. -/
def AssignState.initial (items : List VisionItem) : AssignState where
  begin := 0
  positions := fun _ => []
  imageIndex := 0
  videoIndex := 0
  videoT := 0
  current := 0
  maximum := 0
  items := items

/-- The rest of the runs when the current one, of `modality`, has `count`
tokens so far. -/
def runsFrom (modality count : Nat) : List Nat → List (Nat × Nat)
  | [] => [(modality, count)]
  | next :: rest =>
    if next = modality then runsFrom modality (count + 1) rest
    else (modality, count) :: runsFrom next 1 rest

/-- The runs of equal types the loop steps over, with their lengths. -/
def typeRuns : List Nat → List (Nat × Nat)
  | [] => []
  | modality :: rest => runsFrom modality 1 rest

/-- The next item of a modality, from an index on. -/
def nextItem (modality : PromptModality) (items : List VisionItem)
    (index : Nat) : Nat :=
  index + ((items.drop index).takeWhile
    fun item => item.modality != modality).length

/-- A run of text. -/
def assignText (s : AssignState) (count : Nat) : AssignState :=
  let run := (range count).map fun (i : Nat) => s.current + (i : Int)
  { s with
    begin := s.begin + count
    positions := fun axis => s.positions axis ++ run
    current := s.current + count
    maximum := run.foldl max s.maximum }

/-- The positions of a run of pads, row by row. -/
def gridPositions (current : Int) (gh gw : Nat) : Fin 3 → List Int
  | 0 => (range gh).flatMap fun _ =>
    (range gw).map fun _ => current
  | 1 => (range gh).flatMap fun (y : Nat) =>
    (range gw).map fun _ => current + (y : Int)
  | 2 => (range gh).flatMap fun _ =>
    (range gw).map fun (x : Nat) => current + (x : Int)

/-- A run of pads of the item at `index`; the grids are positive. -/
def assignVisual (s : AssignState) (count index : Nat) (item : VisionItem) :
    Except Exception AssignState :=
  let gh := item.grid.height.toNat / merge
  let gw := item.grid.width.toNat / merge
  if count ≠ gh * gw then
    .error (.invalidArgument "vision placeholder run does not match media grid")
  else
    let run := gridPositions s.current gh gw
    .ok { s with
      begin := s.begin + count
      positions := fun axis => s.positions axis ++ run axis
      current := s.current + max gh gw
      maximum := (run 0 ++ run 1 ++ run 2).foldl max s.maximum
      items := s.items.modify index fun item =>
        { item with
          tokenSpans := item.tokenSpans ++ [⟨s.begin, count⟩] } }

/-- One run. -/
def assignRun (s : AssignState) (run : Nat × Nat) :
    Except Exception AssignState :=
  if run.1 = 0 then .ok (assignText s run.2)
  else if run.1 = PromptModality.image.code then
    let index := nextItem .image s.items s.imageIndex
    match s.items[index]? with
    | none =>
      .error (.invalidArgument "more image token runs than image inputs")
    | some item =>
      assignVisual { s with imageIndex := index + 1 } run.2 index item
  else if run.1 = PromptModality.video.code then
    let index := nextItem .video s.items s.videoIndex
    match s.items[index]? with
    | none =>
      .error (.invalidArgument "more video token runs than video temporal grids")
    | some item =>
      if (s.videoT : Int) + 1 = item.grid.temporal then
        assignVisual { s with videoIndex := index + 1, videoT := 0 } run.2
          index item
      else
        assignVisual { s with videoIndex := index, videoT := s.videoT + 1 }
          run.2 index item
  else .error (.invalidArgument "invalid multimodal token type")

/-- The runs in order. -/
def assignRuns (s : AssignState) : List (Nat × Nat) → Except Exception AssignState
  | [] => .ok s
  | run :: rest => do
    let s ← assignRun s run
    assignRuns s rest

/-- How many runs an item has. -/
def expectedSpans (item : VisionItem) : Nat :=
  match item.modality with
  | .image => 1
  | .video => item.grid.temporal.toNat

/-- What `assign_positions` writes. -/
structure AssignedPositions where
  positions : Fin 3 → List Int
  ropeDelta : Int
  items : List VisionItem

/-- `assign_positions`. -/
def assignPositions (types : List Nat) (items : List VisionItem) :
    Except Exception AssignedPositions := do
  let s ← assignRuns (.initial items) (typeRuns types)
  if s.items.any fun item =>
      item.tokenSpans.length != expectedSpans item then
    throw (.invalidArgument "media grid count does not match placeholder runs")
  return { positions := s.positions
           ropeDelta := s.maximum + 1 - (types.length : Int)
           items := s.items }

-- ============ the processor

/-- `Processor`, with the doubles it computes. Its constructor refuses a
tokenizer whose pads are not the model's tokens. -/
structure Processor where
  vocabulary : Vocabulary
  tables : UnicodeTables
  json : JsonLibrary
  semantics : ChatTemplateSemantics
  options : ProcessorOptions
  arithmetic : ResizeArithmetic
  scale : Int → Rat → Rat → Int
  image_pad : vocabulary.encodeText tables imagePad true = .ok [imageToken]
  video_pad : vocabulary.encodeText tables videoPad true = .ok [videoToken]

/-- `ProcessedInput`. -/
structure ProcessedInput where
  inputIds : List TokenId
  tokenTypes : List Nat
  positions : Fin 3 → List Int
  ropeDelta : Int
  visionItems : List VisionItem
  mediaPayloads : List Nat
  rewriteCheckpoint : Option RewriteCheckpointSpec
  stats : PreprocessStats

namespace Processor

/-- What `process` checks before it prepares a medium. -/
def admitParts (p : Processor) (count : Nat) (parts : List MediaPart) :
    Except Exception Unit :=
  if min (p.options.maxRawPatches / minimumRawPatchesPerItem)
      p.options.maxVisionTokens < count then
    .error (.runtimeError "minimum Vision grids exceed processor extent budget")
  else if p.options.maxEncodedMediaBytes < (parts.map (·.bytes)).sum then
    .error (.runtimeError "request media bytes exceed processor budget")
  else .ok ()

/-- What `process` does once the media are prepared. -/
def assemble (p : Processor) (rendered : RenderedChat)
    (items : List VisionItem) (payloads : List Nat)
    (stats : PreprocessStats) : Except Exception ProcessedInput := do
  let rendered ← expandPlaceholders rendered items
  let encoded ← encodeRenderedChat p.vocabulary p.tables rendered
  enforceMediaResourceLimits stats p.options
  let types := encoded.inputIds.map tokenType
  let assigned ← assignPositions types items
  return { inputIds := encoded.inputIds
           tokenTypes := types
           positions := assigned.positions
           ropeDelta := assigned.ropeDelta
           visionItems := assigned.items
           mediaPayloads := payloads
           rewriteCheckpoint := encoded.rewriteCheckpoint
           stats := stats }

/-- `Processor::process`; `parts` are the media parts of the messages, in
order. -/
def process (p : Processor) (messages : List ChatMessage)
    (renderOptions : ChatRenderOptions) (parts : List MediaPart) :
    Except Exception ProcessedInput := do
  let count ← mediaParts messages
  p.admitParts count parts
  let rendered ← render p.json p.semantics messages renderOptions
  let (items, payloads, patchCursor, stats) ←
    takeMedia p.arithmetic p.scale p.options parts 0 ⟨0, 0⟩
  if patchCursor ≠ stats.rawPatches then
    throw (.logicError "preprocessed patch count does not match processor budget")
  p.assemble rendered items payloads stats

end Processor

/-- The media branch of `Frontend::prepare`: what the runtime is given of
a processed prompt. -/
def ProcessedInput.prepared (input : ProcessedInput) :
    PreparedPromptData where
  tokenIds := input.inputIds
  tokenTypes := input.tokenTypes
  positions := input.positions 0 ++ input.positions 1 ++ input.positions 2
  ropeDelta := input.ropeDelta
  mediaPayloads := input.mediaPayloads.map some
  visionItems := input.visionItems
  reusable := true
  rewriteCheckpoint := input.rewriteCheckpoint
  rawPatches := input.stats.rawPatches
  visionTokens := input.stats.visionTokens

end Ginfer.Frontend.Multimodal
