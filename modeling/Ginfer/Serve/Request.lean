/-
Requests, independent of the protocol they came by (serve/request.h).

A conversation is a list of `ChatTurn`s. Each wire format parses into them,
and every rejection on the way is an `ApiError` that names the parameter it
is about. The readers of optional members at the end are those the wire
formats share; a floating-point member keeps the number it was given.
-/
import Ginfer.Frontend.ChatTemplate
import Ginfer.Lib.Json
import Ginfer.Serve.ToolCallParser

namespace Ginfer.Serve

open Ginfer.Lib Ginfer.Frontend
open Ginfer.Frontend.ChatTemplate (ChatRole)

/-- `ApiError`. -/
structure ApiError where
  status : Nat := 400
  type : String := "invalid_request_error"
  message : Bytes
  param : Bytes := []
  code : Bytes := []

/-- `bad_request`; the protocols share it. -/
def badRequest {α : Type} (message : Bytes) (param : Bytes := [])
    (code : Bytes := []) : Except ApiError α :=
  .error { message := message, param := param, code := code }

/-- `media_acquire::SourceKind`. -/
inductive SourceKind where
  | path | url | data | bytes

/-- `media_acquire::Source`. -/
structure Source where
  kind : SourceKind := .path
  value : Bytes
  mediaType : Bytes := []
  bytes : Bytes := []

/-- `ContentPart` with its `ContentKind`: the text of a text part, the
source of the others, and the wire type of either. -/
inductive ContentPart where
  | text (text typeRaw : Bytes)
  | image (source : Source) (typeRaw : Bytes)
  | video (source : Source) (typeRaw : Bytes)
  | inputAudio (typeRaw : Bytes)
  | unsupported (typeRaw : Bytes)

/-- `ChatTurn`. -/
structure ChatTurn where
  role : ChatRole := .user
  content : List ContentPart := []
  toolCalls : List ToolCall := []
  toolCallId : Bytes := []
  reasoningContent : Bytes := []

-- ============ the request

/-- `ToolDefinition`. -/
structure ToolDefinition where
  name : Bytes
  description : Bytes := []
  parametersJson : Bytes
  definitionJson : Bytes
  strict : Bool := false

/-- `ToolChoiceMode`. -/
inductive ToolChoiceMode where
  | auto | none | required | named
deriving DecidableEq

/-- `ToolChoice`. -/
structure ToolChoice where
  mode : ToolChoiceMode := .auto
  name : Bytes := []

/-- `RequestedReasoningEffort`. -/
inductive RequestedReasoningEffort where
  | none | minimal | low | medium | high | xhigh | max

/-- `parse_requested_reasoning_effort`. -/
def parseRequestedReasoningEffort (value : Bytes) :
    Option RequestedReasoningEffort :=
  if value = ascii "none" then some .none
  else if value = ascii "minimal" then some .minimal
  else if value = ascii "low" then some .low
  else if value = ascii "medium" then some .medium
  else if value = ascii "high" then some .high
  else if value = ascii "xhigh" then some .xhigh
  else if value = ascii "max" then some .max
  else Option.none

/-- A number of a request. -/
inductive Number where
  | integer (n : Int)
  | float (bits : UInt64)

/-- `SamplingParams`. -/
structure SamplingParams where
  temperature : Option Number := none
  topP : Option Number := none
  topK : Option Int := none
  presencePenalty : Option Number := none
  frequencyPenalty : Option Number := none
  seed : Option Nat := none
  logitBias : List (Int × Number) := []
  n : Int := 1

/-- `GenerationRequest`. -/
structure GenerationRequest where
  model : Bytes := []
  messages : List ChatTurn := []
  tools : List ToolDefinition := []
  toolNameMaxLength : Nat := 64
  toolChoice : ToolChoice := {}
  stopStrings : List Bytes := []
  maxTokens : Int := 0
  maxTokensSet : Bool := false
  stream : Bool := false
  includeUsage : Bool := false
  enableThinking : Option Bool := none
  enableThinkingParam : Bytes := ascii "enable_thinking"
  reasoningEffort : Option RequestedReasoningEffort := none
  reasoningEffortParam : Bytes := ascii "reasoning_effort"
  preserveThinking : Option Bool := none
  sampling : SamplingParams := {}

-- ============ the members

/-- What the wire formats use of the JSON library on texts. -/
structure JsonText where
  parse : Bytes → Option Json
  dump : Json → Bytes

/-- The tool-call parser's use of it: `args` is an object. -/
def JsonText.api (text : JsonText) : JsonApi Json where
  parse := text.parse
  string := .string
  dump := fun args => text.dump (.ofMembers args)

/-- `std::to_string` of an index. -/
def indexText (n : Nat) : Bytes := ascii (toString n)

/-- `require_object` of a body. -/
def requireObject (body : Json) : Except ApiError Unit :=
  if body.isObject then .ok ()
  else badRequest (ascii "request body must be a JSON object")

/-- The `model` of a body. -/
def requireModel (body : Json) : Except ApiError Bytes :=
  match body.stringAt? (ascii "model") with
  | none | some [] =>
    badRequest (ascii "missing required field: model") (ascii "model")
  | some model => .ok model

/-- `get_bool`. -/
def getBool (obj : Json) (key : String) (fallback : Bool) :
    Except ApiError Bool :=
  match obj.present? (ascii key) with
  | none => .ok fallback
  | some (.boolean b) => .ok b
  | some _ => badRequest (ascii key ++ ascii " must be a boolean") (ascii key)

/-- `get_number`. -/
def getNumber (obj : Json) (key : String) : Except ApiError (Option Number) :=
  match obj.present? (ascii key) with
  | none => .ok none
  | some (.integer n) => .ok (some (.integer n))
  | some (.float bits) => .ok (some (.float bits))
  | some _ => badRequest (ascii key ++ ascii " must be a number") (ascii key)

/-- `get_int`. -/
def getInt (obj : Json) (key : String) : Except ApiError (Option Int) :=
  match obj.present? (ascii key) with
  | none => .ok none
  | some (.integer n) =>
    if -2 ^ 31 ≤ n ∧ n < 2 ^ 31 then .ok (some n)
    else badRequest (ascii key ++ ascii " is out of range") (ascii key)
  | some _ =>
    badRequest (ascii key ++ ascii " must be an integer") (ascii key)

/-- `get_u64`; an integer of a text fits its word. -/
def getU64 (obj : Json) (key : String) : Except ApiError (Option Nat) :=
  match obj.present? (ascii key) with
  | none => .ok none
  | some (.integer n) =>
    if 0 ≤ n then .ok (some n.toNat)
    else badRequest (ascii key ++ ascii " must be nonnegative") (ascii key)
  | some _ =>
    badRequest (ascii key ++ ascii " must be a nonnegative integer") (ascii key)

/-- The token limit of a request. -/
def parseMaxTokens (maxTokens : Option Int) (default_ : Int) :
    Except ApiError (Int × Bool) :=
  match maxTokens with
  | none => .ok (default_, false)
  | some n =>
    if n ≤ 0 then
      badRequest (ascii "max_tokens must be positive") (ascii "max_tokens")
    else .ok (n, true)

/-- An optional `preserve_thinking`. -/
def thinkingMember (obj : Json) (message param : String) :
    Except ApiError (Option Bool) :=
  match obj.present? (ascii "preserve_thinking") with
  | none => .ok none
  | some (.boolean b) => .ok (some b)
  | some _ => badRequest (ascii message) (ascii param)

/-- The entries of a list of stop strings; empty ones are dropped. -/
def stopEntries (param : String) : List Json → Except ApiError (List Bytes)
  | [] => .ok []
  | .string s :: rest => do
    let more ← stopEntries param rest
    .ok (if s.isEmpty then more else s :: more)
  | _ :: _ =>
    badRequest (ascii param ++ ascii " entries must be strings") (ascii param)

/-- `is_valid_function_name`, with the bound of the protocol. -/
def isValidFunctionName (maximum : Nat) (name : Bytes) : Bool :=
  !name.isEmpty && decide (name.length ≤ maximum)
    && name.all fun c => isAlnum c || c == 0x5f || c == 0x2d

/-- `require_function_name`, with the bound and the texts of the
protocol. -/
def requireFunctionName (maximum : Nat) (notString invalid : Bytes)
    (obj : Json) (param : String) : Except ApiError Bytes :=
  match obj.stringAt? (ascii "name") with
  | none => badRequest notString (ascii param)
  | some name =>
    if isValidFunctionName maximum name then .ok name
    else badRequest invalid (ascii param)

end Ginfer.Serve
