/-
The input of a Responses request, and the context it continues
(serve/responses_schema.cpp, `parse_input`; serve/response_store.cpp;
serve/responses_http.cpp, `terminal_context`).

A request sends a flat list of items. `inputStep` reads one: a message is a
turn, reasoning waits for the assistant item it belongs to, and a function
call joins the turn of the call right before it. Every item is kept in a
canonical form with an id, its own or a new one, and no id may come twice.

The turns a request added and the turn of its response are appended to the
context of the response it continued; `composeGenerationMessages` puts the
instructions, the context and the new input together.
-/
import Ginfer.Serve.Responses

namespace Ginfer.Serve.Responses

open Ginfer.Lib Ginfer.Frontend
open Ginfer.Frontend.ChatTemplate (ChatRole)

/-- `bad_request` about the input. -/
def badInput {α : Type} (message : Bytes) (code : String := "") :
    Except ApiError α :=
  badRequest message (ascii "input") (ascii code)

-- ============ the parts

/-- `item_id`, with the draws so far. -/
def itemId (draws : Nat → UInt64) (drawn : Nat) (item : Json)
    (kind : String) : Except ApiError (Bytes × Nat) :=
  match item.present? (ascii "id") with
  | none => .ok (idOr draws drawn kind [])
  | some (.string (b :: rest)) => .ok (b :: rest, drawn)
  | some _ =>
    badInput (ascii "input Item id must be a non-empty string")

/-- The end of `parse_image_source` and `parse_video_source`. -/
def sourceOf (url : Bytes) (refusal : String) : Except ApiError Source :=
  if (ascii "data:").isPrefixOf url then
    .ok { kind := .data, value := url }
  else if (ascii "http://").isPrefixOf url
      || (ascii "https://").isPrefixOf url then
    .ok { kind := .url, value := url }
  else badInput (ascii refusal)

/-- The url of a part. -/
def urlOf (part : Json) (key refusal : String) : Except ApiError Bytes :=
  match part.stringAt? (ascii key) with
  | none | some [] => badInput (ascii refusal)
  | some url => .ok url

/-- `input_image.detail`. -/
def parseDetail (part : Json) : Except ApiError Unit :=
  match part.present? (ascii "detail") with
  | none => .ok ()
  | some (.string detail) =>
    if detail = ascii "auto" then .ok ()
    else
      badInput (ascii "only input_image detail 'auto' is supported")
        "image_detail_not_supported"
  | some _ => badInput (ascii "input_image.detail must be a string")

/-- `parse_image_source`. -/
def parseImageSource (part : Json) : Except ApiError Source :=
  if (part.present? (ascii "file_id")).isSome then
    badInput (ascii "input_image.file_id is not supported; use image_url")
      "file_inputs_not_supported"
  else do
    let url ← urlOf part "image_url"
      "input_image must contain a non-empty image_url"
    parseDetail part
    sourceOf url "input_image.image_url must use HTTP(S) or a data URI"

/-- `parse_video_source`. -/
def parseVideoSource (part : Json) : Except ApiError Source := do
  let url ← urlOf part "video_url"
    "input_video must contain a non-empty video_url"
  sourceOf url "input_video.video_url must use HTTP(S) or a data URI"

/-- `append_text`. -/
def textPart (text wireType : Bytes) : ContentPart × Json :=
  (.text text wireType,
    .ofMembers ([(ascii "type", .string wireType), (ascii "text", .string text)]
      ++ if wireType = ascii "output_text" then
          [(ascii "annotations", .array [])]
        else []))

/-- A part with a text. -/
def parseTextPart (role : ChatRole) (part : Json) (type : Bytes) :
    Except ApiError (ContentPart × Json) :=
  match part.stringAt? (ascii "text") with
  | none => badInput (type ++ ascii " must contain a string text")
  | some text =>
    if type = ascii "output_text" ∧ role ≠ .assistant then
      badInput (ascii "output_text is only valid on assistant messages")
    else .ok (textPart text type)

/-- A part with an image. -/
def parseImagePart (role : ChatRole) (part : Json) :
    Except ApiError (ContentPart × Json) :=
  if role ≠ .user then
    badInput (ascii "input_image is only supported on user messages")
  else do
    let source ← parseImageSource part
    .ok (.image source (ascii "input_image"),
      .ofMembers [(ascii "type", .string (ascii "input_image")),
        (ascii "image_url", .string source.value),
        (ascii "detail", .string (ascii "auto"))])

/-- A part with a video. -/
def parseVideoPart (role : ChatRole) (part : Json) :
    Except ApiError (ContentPart × Json) :=
  if role ≠ .user then
    badInput (ascii "input_video is only supported on user messages")
  else do
    let source ← parseVideoSource part
    .ok (.video source (ascii "input_video"),
      .ofMembers [(ascii "type", .string (ascii "input_video")),
        (ascii "video_url", .string source.value)])

/-- One part of a message; the second half is its canonical form. -/
def parsePart (role : ChatRole) (part : Json) :
    Except ApiError (ContentPart × Json) :=
  match part.stringAt? (ascii "type") with
  | none =>
    badInput (ascii "input message content parts must have a string type")
  | some type =>
    if type = ascii "input_text" ∨ type = ascii "output_text" then
      parseTextPart role part type
    else if type = ascii "input_image" then parseImagePart role part
    else if type = ascii "input_video" then parseVideoPart role part
    else if type = ascii "input_file" then
      badInput (ascii "input_file is not supported") "file_inputs_not_supported"
    else if type = ascii "input_audio" then
      badInput (ascii "input_audio is not supported") "audio_inputs_not_supported"
    else
      badInput (ascii "unsupported message content type: " ++ type)
        "modality_not_supported"

-- ============ the items

/-- What was read of an item: its value, its id, its canonical form and the
draws so far. -/
structure Entry (α : Type) where
  value : α
  id : Bytes
  canonical : Json
  drawn : Nat

/-- The canonical form of an item: its id and the other members. -/
def canonicalItem (id : Bytes) (members : List (Bytes × Json)) : Json :=
  .ofMembers ((ascii "id", .string id) :: members)

/-- The entry of an item: its value and the members of its canonical form
are read first, its id last. -/
def entryOf {α : Type} (draws : Nat → UInt64) (drawn : Nat) (item : Json)
    (kind : String) (read : Except ApiError (α × List (Bytes × Json))) :
    Except ApiError (Entry α) := do
  let (value, members) ← read
  let (id, drawn) ← itemId draws drawn item kind
  .ok ⟨value, id, canonicalItem id members, drawn⟩

/-- The roles of a message. -/
def parseRole (role : Bytes) : Except ApiError ChatRole :=
  if role = ascii "user" then .ok .user
  else if role = ascii "assistant" then .ok .assistant
  else if role = ascii "system" then .ok .system
  else if role = ascii "developer" then .ok .developer
  else
    badInput (ascii "unsupported input message role: " ++ role) "unsupported_role"

/-- The `status` of an item, where there is one. -/
def requireCompleted (item : Json) (what : String) : Except ApiError Unit :=
  match item.present? (ascii "status") with
  | none => .ok ()
  | some (.string status) =>
    if status = ascii "completed" then .ok ()
    else badInput (ascii what ++ ascii " status must be 'completed'")
  | some _ => badInput (ascii what ++ ascii " status must be 'completed'")

/-- The role of a message item. -/
def messageRole (item : Json) (index : Nat) :
    Except ApiError (Bytes × ChatRole) :=
  match item.stringAt? (ascii "role") with
  | none =>
    badInput (ascii "input message " ++ indexText index
      ++ ascii " must contain a string role")
  | some role => do
    let parsed ← parseRole role
    .ok (role, parsed)

/-- The `phase` of a message item. -/
def rejectPhase (item : Json) : Except ApiError Unit :=
  if (item.present? (ascii "phase")).isSome then
    badInput (ascii "message phase is not supported") "phase_not_supported"
  else .ok ()

/-- The parts of a message item. -/
def messageParts (role : ChatRole) (item : Json) (index : Nat) :
    Except ApiError (List (ContentPart × Json)) :=
  match item.present? (ascii "content") with
  | none =>
    badInput (ascii "input message " ++ indexText index
      ++ ascii " must contain content")
  | some (.string text) =>
    .ok [textPart text
      (if role = .assistant then ascii "output_text"
        else ascii "input_text")]
  | some (.array []) =>
    badInput (ascii "input message content must not be empty")
  | some (.array parts) => parts.mapM (parsePart role)
  | some _ =>
    badInput (ascii "input message content must be a string or array")

/-- `parse_message_item`, but for the id. -/
def messageValue (item : Json) (index : Nat) :
    Except ApiError (ChatTurn × List (Bytes × Json)) := do
  let (role, parsed) ← messageRole item index
  rejectPhase item
  requireCompleted item "input message"
  let parts ← messageParts parsed item index
  .ok ({ role := parsed, content := parts.map Prod.fst },
    [(ascii "type", .string (ascii "message")), (ascii "role", .string role),
      (ascii "content", .array (parts.map Prod.snd))])

/-- `parse_message_item`. -/
def parseMessageItem (draws : Nat → UInt64) (drawn : Nat) (item : Json)
    (index : Nat) : Except ApiError (Entry ChatTurn) :=
  entryOf draws drawn item "msg" (messageValue item index)

/-- What `parse_reasoning_item` does not support. -/
def rejectReasoning (item : Json) : Except ApiError Unit :=
  if (item.present? (ascii "encrypted_content")).isSome then
    badInput (ascii "encrypted reasoning content is not supported")
      "encrypted_reasoning_not_supported"
  else
    match item.present? (ascii "summary") with
    | none | some (.array []) => .ok ()
    | some (.array _) =>
      badInput
        (ascii "reasoning summaries are not supported; replay raw reasoning_text")
        "reasoning_summary_not_supported"
    | some _ => badInput (ascii "reasoning summary must be an array")

/-- One part of a reasoning item: its text. -/
def reasoningPart (part : Json) : Except ApiError Bytes :=
  match part.stringAt? (ascii "type"), part.stringAt? (ascii "text") with
  | some type, some text =>
    if type = ascii "reasoning_text" then .ok text
    else
      badInput (ascii "reasoning content only supports reasoning_text parts")
  | _, _ =>
    badInput (ascii "reasoning content only supports reasoning_text parts")

/-- The canonical form of a part of a reasoning item. -/
def reasoningJson (text : Bytes) : Json :=
  .ofMembers [(ascii "type", .string (ascii "reasoning_text")),
    (ascii "text", .string text)]

/-- The texts of a reasoning item. -/
def reasoningTexts (item : Json) : Except ApiError (List Bytes) :=
  match item.find? (ascii "content") with
  | some (.array parts) => parts.mapM reasoningPart
  | _ => badInput (ascii "reasoning Item must contain a content array")

/-- `parse_reasoning_item`, but for the id. -/
def reasoningValue (item : Json) :
    Except ApiError (Bytes × List (Bytes × Json)) := do
  rejectReasoning item
  let texts ← reasoningTexts item
  .ok (texts.flatten,
    [(ascii "type", .string (ascii "reasoning")), (ascii "summary", .array []),
      (ascii "content", .array (texts.map reasoningJson))])

/-- `parse_reasoning_item`. -/
def parseReasoningItem (draws : Nat → UInt64) (drawn : Nat) (item : Json) :
    Except ApiError (Entry Bytes) :=
  entryOf draws drawn item "rs" (reasoningValue item)

/-- The `call_id` of an item. -/
def parseCallId (item : Json) (what : String) : Except ApiError Bytes :=
  match item.stringAt? (ascii "call_id") with
  | none | some [] =>
    badInput (ascii what ++ ascii " must contain a non-empty call_id")
  | some id => .ok id

/-- The `arguments` of a call. -/
def parseArguments (text : JsonText) (item : Json) : Except ApiError Bytes :=
  match item.stringAt? (ascii "arguments") with
  | none =>
    badInput (ascii "function_call arguments must be a JSON string")
  | some arguments =>
    match text.parse arguments with
    | some (.object _) => .ok arguments
    | _ =>
      badInput (ascii "function_call arguments must encode a JSON object")

/-- `require_function_name` of this protocol. -/
def requireName (item : Json) : Except ApiError Bytes :=
  requireFunctionName 64 (ascii "function name must be a string")
    (ascii "function name must match [A-Za-z0-9_-]\x7b1,64\x7d") item
    "input"

/-- `parse_function_call_item`, but for the id. -/
def functionCallValue (text : JsonText) (item : Json) :
    Except ApiError (ToolCall × List (Bytes × Json)) := do
  let callId ← parseCallId item "function_call"
  let name ← requireName item
  let arguments ← parseArguments text item
  requireCompleted item "function_call"
  .ok (⟨callId, name, arguments⟩,
    [(ascii "type", .string (ascii "function_call")),
      (ascii "status", .string (ascii "completed")),
      (ascii "call_id", .string callId), (ascii "name", .string name),
      (ascii "arguments", .string arguments)])

/-- `parse_function_call_item`. -/
def parseFunctionCallItem (text : JsonText) (draws : Nat → UInt64)
    (drawn : Nat) (item : Json) : Except ApiError (Entry ToolCall) :=
  entryOf draws drawn item "fc" (functionCallValue text item)

/-- The `output` of a call. -/
def parseOutput (item : Json) : Except ApiError Bytes :=
  match item.stringAt? (ascii "output") with
  | none => badInput (ascii "function_call_output output must be a string")
  | some output => .ok output

/-- `parse_function_call_output_item`, but for the id. -/
def functionCallOutputValue (item : Json) :
    Except ApiError (ChatTurn × List (Bytes × Json)) := do
  let callId ← parseCallId item "function_call_output"
  let output ← parseOutput item
  requireCompleted item "function_call_output"
  .ok ({ role := .tool, toolCallId := callId,
         content := [.text output (ascii "input_text")] },
    [(ascii "type", .string (ascii "function_call_output")),
      (ascii "status", .string (ascii "completed")),
      (ascii "call_id", .string callId), (ascii "output", .string output)])

/-- `parse_function_call_output_item`. -/
def parseFunctionCallOutputItem (draws : Nat → UInt64) (drawn : Nat)
    (item : Json) : Except ApiError (Entry ChatTurn) :=
  entryOf draws drawn item "fco" (functionCallOutputValue item)

-- ============ the input

/-- The turns so far: the reasoning that waits for its item, and whether the
last item was a function call. -/
structure Grouping where
  turns : List ChatTurn := []
  pendingReasoning : Option Bytes := none
  canGroupFunctionCalls : Bool := false

/-- The locals of `parse_input`, with what it wrote to the request. -/
structure InputState where
  grouping : Grouping := {}
  items : List Json := []
  ids : List Bytes := []
  drawn : Nat := 0

/-- The `type` of an item; an item with a role may leave it out. -/
def itemType (item : Json) : Except ApiError Bytes :=
  match item.present? (ascii "type") with
  | some (.string type) => .ok type
  | some _ => badInput (ascii "input Item type must be a string")
  | none =>
    if (item.find? (ascii "role")).isSome then .ok (ascii "message")
    else badInput (ascii "input Item must contain type")

/-- Reasoning was not followed by the item it belongs to. -/
def danglingReasoning {α : Type} : Except ApiError α :=
  badInput (ascii "a reasoning Item must be followed by an assistant output Item")

/-- A message: it takes the reasoning that waits. -/
def Grouping.message (g : Grouping) (turn : ChatTurn) :
    Except ApiError Grouping :=
  match g.pendingReasoning with
  | none => .ok ⟨g.turns ++ [turn], none, false⟩
  | some reasoning =>
    if turn.role ≠ .assistant then danglingReasoning
    else
      .ok ⟨g.turns ++ [{ turn with reasoningContent := reasoning }], none, false⟩

/-- Whether a call joins the last turn. -/
def Grouping.joins (g : Grouping) : Bool :=
  g.canGroupFunctionCalls && g.pendingReasoning.isNone &&
    match g.turns.getLast? with
    | some turn =>
      turn.role == .assistant && turn.content.isEmpty && !turn.toolCalls.isEmpty
    | none => false

/-- A function call. -/
def Grouping.functionCall (g : Grouping) (call : ToolCall) : Grouping :=
  if g.joins then
    ⟨g.turns.modifyLast fun turn =>
      { turn with toolCalls := turn.toolCalls ++ [call] }, none, true⟩
  else
    ⟨g.turns ++ [{ role := .assistant
                   reasoningContent := g.pendingReasoning.getD []
                   toolCalls := [call] }], none, true⟩

attribute [local instance] lawful_bytes in
/-- The end of an iteration: the id is new, and the item is kept. -/
def InputState.keep {α : Type} (s : InputState) (entry : Entry α)
    (grouping : Grouping) : Except ApiError InputState :=
  if entry.id ∈ s.ids then
    badInput (ascii "duplicate input Item id: " ++ entry.id)
  else
    .ok ⟨grouping, s.items ++ [entry.canonical], s.ids ++ [entry.id], entry.drawn⟩

/-- An iteration of `parse_input` on a message. -/
def messageStep (draws : Nat → UInt64) (s : InputState) (item : Json)
    (index : Nat) : Except ApiError InputState := do
  let entry ← parseMessageItem draws s.drawn item index
  let grouping ← s.grouping.message entry.value
  s.keep entry grouping

/-- An iteration of `parse_input` on reasoning. -/
def reasoningStep (draws : Nat → UInt64) (s : InputState) (item : Json) :
    Except ApiError InputState :=
  if s.grouping.pendingReasoning.isSome then
    badInput (ascii "adjacent reasoning Items are not supported")
  else do
    let entry ← parseReasoningItem draws s.drawn item
    s.keep entry ⟨s.grouping.turns, some entry.value, false⟩

/-- An iteration of `parse_input` on a function call. -/
def functionCallStep (text : JsonText) (draws : Nat → UInt64)
    (s : InputState) (item : Json) : Except ApiError InputState := do
  let entry ← parseFunctionCallItem text draws s.drawn item
  s.keep entry (s.grouping.functionCall entry.value)

/-- An iteration of `parse_input` on the output of a call. -/
def functionCallOutputStep (draws : Nat → UInt64) (s : InputState)
    (item : Json) : Except ApiError InputState :=
  if s.grouping.pendingReasoning.isSome then danglingReasoning
  else do
    let entry ← parseFunctionCallOutputItem draws s.drawn item
    s.keep entry ⟨s.grouping.turns ++ [entry.value], none, false⟩

/-- An iteration of `parse_input`. -/
def inputStep (text : JsonText) (draws : Nat → UInt64) (s : InputState)
    (item : Json) (index : Nat) : Except ApiError InputState :=
  if !item.isObject then
    badInput (ascii "input Item " ++ indexText index
      ++ ascii " must be an object")
  else do
    let type ← itemType item
    if type = ascii "message" then messageStep draws s item index
    else if type = ascii "reasoning" then reasoningStep draws s item
    else if type = ascii "function_call" then
      functionCallStep text draws s item
    else if type = ascii "function_call_output" then
      functionCallOutputStep draws s item
    else if type = ascii "input_file" then
      badInput (ascii "input_file is not supported") "file_inputs_not_supported"
    else
      badInput (ascii "unsupported input Item type: " ++ type)
        "item_type_not_supported"

/-- The loop of `parse_input`. -/
def inputLoop (text : JsonText) (draws : Nat → UInt64) :
    InputState → Nat → List Json → Except ApiError InputState
  | s, _, [] => .ok s
  | s, index, item :: rest => do
    let s ← inputStep text draws s item index
    inputLoop text draws s (index + 1) rest

/-- The items of an input: a string is one message of the user. -/
def inputValues (input : Json) : Except ApiError (List Json) :=
  match input with
  | .string _ =>
    .ok [.ofMembers [(ascii "type", .string (ascii "message")),
      (ascii "role", .string (ascii "user")),
      (ascii "content", input)]]
  | .array [] => badInput (ascii "input must not be empty")
  | .array values => .ok values
  | _ => badInput (ascii "input must be a string or an array of Items")

/-- What `parse_input` writes to a request. -/
structure ParsedInput where
  turns : List ChatTurn
  items : List Json

/-- `parse_input`. -/
def parseInput (text : JsonText) (draws : Nat → UInt64) (input : Json) :
    Except ApiError ParsedInput := do
  let values ← inputValues input
  let s ← inputLoop text draws {} 0 values
  if s.grouping.pendingReasoning.isSome then danglingReasoning
  else .ok ⟨s.grouping.turns, s.items⟩

-- ============ the context

/-- `ResponseContext`: a chain of nodes, each with its turns. -/
inductive ResponseContext where
  | empty
  | node (parent : ResponseContext) (turns : List ChatTurn)

/-- `append_response_context`. -/
def appendResponseContext (parent : ResponseContext)
    (turns : List ChatTurn) : ResponseContext :=
  .node parent turns

/-- The turns of the nodes, from the last to the first. -/
def ResponseContext.nodes : ResponseContext → List (List ChatTurn)
  | .empty => []
  | .node parent turns => turns :: parent.nodes

/-- `flatten_response_context`. -/
def flattenResponseContext (context : ResponseContext) : List ChatTurn :=
  context.nodes.reverse.flatten

/-- `terminal_context`. -/
def terminalContext (previous : ResponseContext)
    (inputTurns history : List ChatTurn) : ResponseContext :=
  appendResponseContext (appendResponseContext previous inputTurns) history

/-- `compose_responses_generation_messages`. -/
def composeGenerationMessages (instructions : Option Bytes)
    (previousContext inputTurns : List ChatTurn) : List ChatTurn :=
  (match instructions with
    | some text =>
      [{ role := .developer,
         content := [.text text (ascii "input_text")] }]
    | none => []) ++ previousContext ++ inputTurns

-- ============ the output

/-- A status as it is written. -/
def Status.wire : Status → Bytes
  | .inProgress => ascii "in_progress"
  | .completed => ascii "completed"
  | .incomplete => ascii "incomplete"
  | .cancelled => ascii "cancelled"

/-- An output item as it is written. -/
def OutputItem.toJson : OutputItem → Json
  | .reasoning id status content =>
    .ofMembers [(ascii "id", .string id),
      (ascii "type", .string (ascii "reasoning")),
      (ascii "status", .string status.wire),
      (ascii "summary", .array []),
      (ascii "content", .array (content.map fun text =>
        .ofMembers [(ascii "type", .string (ascii "reasoning_text")),
          (ascii "text", .string text)]))]
  | .message id status content =>
    .ofMembers [(ascii "id", .string id),
      (ascii "type", .string (ascii "message")),
      (ascii "status", .string status.wire),
      (ascii "role", .string (ascii "assistant")),
      (ascii "content", .array (content.map fun text =>
        .ofMembers [(ascii "type", .string (ascii "output_text")),
          (ascii "annotations", .array []),
          (ascii "text", .string text)]))]
  | .functionCall id status callId name arguments =>
    .ofMembers [(ascii "id", .string id),
      (ascii "type", .string (ascii "function_call")),
      (ascii "status", .string status.wire),
      (ascii "call_id", .string callId), (ascii "name", .string name),
      (ascii "arguments", .string arguments)]

end Ginfer.Serve.Responses
