/-
The response object of the Responses protocol
(serve/responses_schema.cpp, `build_response`).

An outcome becomes output items in a fixed order — the reasoning, the
message, the function calls — and one assistant turn for the history of
the conversation. An item that was announced in a stream keeps the id it
was announced with; the others draw a new one.

Ids are drawn from `random_id`: a prefix and two draws of 64 bits in
hexadecimal. The draws are a parameter, `Nat → UInt64`, read in order. What
`response_common` echoes of the request is a parameter too, and so is the
time of completion; the count of cached tokens is left out of the usage.
-/
import Ginfer.Serve.GenerationService
import Ginfer.Serve.Request

namespace Ginfer.Serve.Responses

open Ginfer.Lib Ginfer.Frontend

-- ============ the ids

/-- A digit of `%llx`. -/
def hexDigit (n : Nat) : UInt8 :=
  UInt8.ofNat (if n < 10 then 0x30 + n else 0x61 + (n - 10))

/-- `%016llx`. -/
def hex16 (value : UInt64) : Bytes :=
  (List.range 16).map fun i => hexDigit (value.toNat / 16 ^ (15 - i) % 16)

/-- `random_id`, at the next two draws. -/
def randomId (draws : Nat → UInt64) (at_ : Nat) (kind : String) : Bytes :=
  ascii kind ++ ascii "_" ++ (hex16 (draws at_) ++ hex16 (draws (at_ + 1)))

/-- `ItemIds`. -/
structure ItemIds where
  reasoning : Bytes := []
  message : Bytes := []
  functionCalls : List Bytes := []

/-- The id an item has, or a new one: `new_response_item_id`. The second
part is the number of draws so far. -/
def idOr (draws : Nat → UInt64) (drawn : Nat) (kind : String) (id : Bytes) :
    Bytes × Nat :=
  if id.isEmpty then (randomId draws drawn kind, drawn + 2) else (id, drawn)

-- ============ the items

/-- The `status` of an item or a response. -/
inductive Status where
  | inProgress | completed | incomplete | cancelled
deriving DecidableEq

/-- An output item; the parts of a content are their texts. -/
inductive OutputItem where
  | reasoning (id : Bytes) (status : Status) (content : List Bytes)
  | message (id : Bytes) (status : Status) (content : List Bytes)
  | functionCall (id : Bytes) (status : Status) (callId name arguments : Bytes)

/-- `response_status`. -/
def responseStatus : FinishReason → Status
  | .outputLimit | .contextCapacity => .incomplete
  | .cancelled => .cancelled
  | .none | .stopToken | .stopString => .completed

/-- `item_status`. -/
def itemStatus (reason : FinishReason) : Status :=
  if responseStatus reason = .completed then .completed else .incomplete

/-- `reasoning_status`: reasoning that something follows is complete. -/
def reasoningStatus (outcome : GenerationOutcome) : Status :=
  if !outcome.text.isEmpty || !outcome.toolCalls.isEmpty then .completed
  else itemStatus outcome.finishReason

/-- The token counts of a response. -/
structure Usage where
  inputTokens : Nat
  outputTokens : Nat
  reasoningTokens : Nat
  totalTokens : Nat

/-- The body of a response; `common` is what `response_common` puts in. -/
structure Response (C : Type) where
  common : C
  status : Status
  completedAt : Option Int
  output : List OutputItem
  incompleteReason : Option String
  usage : Option Usage

/-- `BuiltResponse`; its `output_items` are the output of the body. -/
structure BuiltResponse (C : Type) where
  body : Response C
  outputHistory : List ChatTurn

/-- The items of the calls: each with its own id, or a new one. -/
def functionCallItems (draws : Nat → UInt64) :
    Nat → List Bytes → List ToolCall → List OutputItem
  | _, _, [] => []
  | drawn, ids, call :: rest =>
    let (id, drawn') := idOr draws drawn "fc" (ids.headD [])
    .functionCall id .completed call.id call.name call.argumentsJson
      :: functionCallItems draws drawn' ids.tail rest

/-- The output items of an outcome. -/
def outputItems (draws : Nat → UInt64) (drawn : Nat) (ids : ItemIds)
    (outcome : GenerationOutcome) : List OutputItem :=
  let (reasoning, drawn) :=
    if outcome.reasoning.isEmpty then ([], drawn)
    else
      let (id, drawn) := idOr draws drawn "rs" ids.reasoning
      ([OutputItem.reasoning id (reasoningStatus outcome)
        [outcome.reasoning]], drawn)
  let (message, drawn) :=
    if !outcome.text.isEmpty || outcome.toolCalls.isEmpty then
      let (id, drawn) := idOr draws drawn "msg" ids.message
      ([OutputItem.message id (itemStatus outcome.finishReason)
        [outcome.text]], drawn)
    else ([], drawn)
  reasoning ++ message
    ++ functionCallItems draws drawn ids.functionCalls outcome.toolCalls

/-- The turn of an outcome. -/
def outputHistory (outcome : GenerationOutcome) : List ChatTurn :=
  [{ role := .assistant
     reasoningContent := outcome.reasoning
     toolCalls := outcome.toolCalls
     content :=
       if outcome.text.isEmpty then []
       else [.text outcome.text (ascii "output_text")] }]

/-- `build_response`. -/
def buildResponse {C : Type} (draws : Nat → UInt64) (drawn : Nat)
    (common : C) (now : Int) (outcome : GenerationOutcome) (ids : ItemIds) :
    BuiltResponse C where
  body :=
    { common := common
      status := responseStatus outcome.finishReason
      completedAt := some now
      output := outputItems draws drawn ids outcome
      incompleteReason :=
        if responseStatus outcome.finishReason = .incomplete then
          some "max_output_tokens"
        else none
      usage := some
        { inputTokens := outcome.promptTokens
          outputTokens := outcome.completionTokens
          reasoningTokens := outcome.reasoningTokens
          totalTokens := outcome.promptTokens + outcome.completionTokens } }
  outputHistory := outputHistory outcome

/-- `in_progress_response`. -/
def inProgressResponse {C : Type} (common : C) : Response C where
  common := common
  status := .inProgress
  completedAt := none
  output := []
  incompleteReason := none
  usage := none

end Ginfer.Serve.Responses
