/-
The Messages wire format (serve/anthropic_schema.cpp).

The messages of a body are read in three passes: their roles, the place of
the system messages among them, and their contents. A user message with
tool results becomes several turns. The other way, `messageBlocks` are the
content blocks of a response (`make_messages_response`); ids and usage are
left out.
-/
import Ginfer.Serve.GenerationService
import Ginfer.Serve.Request

namespace Ginfer.Serve.Anthropic

open Ginfer.Lib Ginfer.Frontend
open Ginfer.Frontend.ChatTemplate (ChatRole)

-- ============ the blocks

/-- `kMaxToolNameLength`. -/
def maxToolNameLength : Nat := 128

/-- `require_function_name`. -/
def requireFunctionName : Json → String → Except ApiError Bytes :=
  Serve.requireFunctionName maxToolNameLength (ascii "tool name must be a string")
    (ascii "tool name must match [A-Za-z0-9_-]\x7b1,128\x7d")

/-- `append_text`. -/
def appendText (acc piece : Bytes) : Bytes :=
  if piece.isEmpty then acc
  else if acc.isEmpty then piece
  else acc ++ ascii "\n" ++ piece

/-- `require_block_type`. -/
def requireBlockType (block : Json) (param : String) : Except ApiError Bytes :=
  match block.stringAt? (ascii "type") with
  | some type => .ok type
  | none =>
    badRequest (ascii "content blocks must be objects with a string 'type'")
      (ascii param)

/-- `require_string_field`. -/
def requireStringField (block : Json) (field what : String) :
    Except ApiError Bytes :=
  match block.stringAt? (ascii field) with
  | some s => .ok s
  | none =>
    badRequest (ascii what ++ ascii " must contain a string '"
      ++ ascii field ++ ascii "'") (ascii "messages")

/-- `parse_image_source`. -/
def parseImageSource (block : Json) : Except ApiError Source := do
  match block.find? (ascii "source") with
  | some (.object members) =>
    let source := Json.object members
    let type ← requireStringField source "type" "image source"
    if type = ascii "base64" then
      let mediaType ←
        requireStringField source "media_type" "base64 image source"
      let data ← requireStringField source "data" "base64 image source"
      if data.isEmpty then
        badRequest (ascii "base64 image data must not be empty")
          (ascii "messages")
      else
        .ok { kind := .data, mediaType := mediaType,
              value := ascii "data:" ++ mediaType ++ ascii ";base64," ++ data }
    else if type = ascii "url" then
      let value ← requireStringField source "url" "URL image source"
      if (ascii "http://").isPrefixOf value
          || (ascii "https://").isPrefixOf value then
        .ok { kind := .url, value := value }
      else
        badRequest (ascii "image URL must use HTTP(S)") (ascii "messages")
    else
      badRequest (ascii "unsupported image source type: " ++ type)
        (ascii "messages")
  | _ =>
    badRequest (ascii "image block must contain a source object")
      (ascii "messages")

-- ============ the tools

/-- The description of a tool. -/
def toolDescription (item : Json) : Except ApiError (Option Bytes) :=
  match item.present? (ascii "description") with
  | none => .ok none
  | some (.string s) => .ok (some s)
  | some _ =>
    badRequest (ascii "tool description must be a string") (ascii "tools")

/-- An entry of `tools`. -/
def parseTool (text : JsonText) (item : Json) :
    Except ApiError ToolDefinition := do
  if !item.isObject then
    badRequest (ascii "tools entries must be objects") (ascii "tools")
  else
    match item.present? (ascii "input_schema") with
    | none =>
      badRequest (ascii "only client tools with an input_schema are supported")
        (ascii "tools") (ascii "tool_type_not_supported")
    | some (.object members) =>
      let parameters := Json.object members
      let name ← requireFunctionName item "tools"
      let description ← toolDescription item
      let function := Json.ofMembers ([(ascii "name", .string name)]
        ++ (description.toList.map fun d =>
          (ascii "description", Json.string d))
        ++ [(ascii "parameters", parameters), (ascii "strict", .boolean false)])
      .ok { name := name, description := description.getD [],
            parametersJson := text.dump parameters,
            definitionJson := text.dump (.ofMembers
              [(ascii "type", .string (ascii "function")),
                (ascii "function", function)]) }
    | some _ =>
      badRequest (ascii "tool input_schema must be a JSON object") (ascii "tools")

/-- `parse_tools`. -/
def parseTools (text : JsonText) (body : Json) :
    Except ApiError (List ToolDefinition) :=
  match body.present? (ascii "tools") with
  | none => .ok []
  | some (.array items) => items.mapM (parseTool text)
  | some _ => badRequest (ascii "tools must be an array") (ascii "tools")

/-- The choice itself. -/
def readToolChoice (choice : Json) : Except ApiError ToolChoice :=
  match choice.stringAt? (ascii "type") with
  | none =>
    badRequest (ascii "tool_choice must be an object with a string type")
      (ascii "tool_choice")
  | some type =>
    if type = ascii "auto" then .ok { mode := .auto }
    else if type = ascii "any" then .ok { mode := .required }
    else if type = ascii "none" then .ok { mode := .none }
    else if type = ascii "tool" then do
      let name ← requireFunctionName choice "tool_choice"
      .ok { mode := .named, name := name }
    else
      badRequest (ascii "unsupported tool_choice type: " ++ type)
        (ascii "tool_choice")

/-- `parse_tool_choice`. -/
def parseToolChoice (body : Json) (tools : List ToolDefinition) :
    Except ApiError ToolChoice :=
  match body.present? (ascii "tool_choice") with
  | none => .ok {}
  | some choice => do
    let choice ← readToolChoice choice
    if choice.mode ≠ .none ∧ tools.isEmpty then
      badRequest (ascii "tool_choice requires tools") (ascii "tool_choice")
    else if choice.mode = .named
        ∧ !(tools.any fun tool => tool.name = choice.name) then
      badRequest (ascii "tool_choice references unknown tool: "
        ++ choice.name) (ascii "tool_choice")
    else .ok choice

-- ============ the contents

/-- The text blocks of a system value. -/
def flattenSystemBlocks (param : String) :
    Bytes → List Json → Except ApiError Bytes
  | text, [] => .ok text
  | text, block :: rest => do
    let type ← requireBlockType block param
    if type ≠ ascii "text" then
      badRequest (ascii "only text system blocks are supported") (ascii param)
    else
      let piece ← requireStringField block "text" "system text block"
      flattenSystemBlocks param (appendText text piece) rest

/-- `flatten_system_value`. -/
def flattenSystemValue (value : Json) (param : String) : Except ApiError Bytes :=
  match value with
  | .string s => .ok s
  | .array blocks => flattenSystemBlocks param [] blocks
  | _ =>
    badRequest (ascii
      "system content must be a string or an array of text blocks")
      (ascii param)

/-- A turn of one text. -/
def textTurn (role : ChatRole) (text : Bytes) : ChatTurn :=
  { role := role, content := [.text text (ascii "text")] }

/-- `parse_system`. -/
def parseSystem (body : Json) : Except ApiError (List ChatTurn) :=
  match body.present? (ascii "system") with
  | none => .ok []
  | some value => do
    let text ← flattenSystemValue value "system"
    .ok [textTurn .system text]

/-- `parse_tool_use`. -/
def parseToolUse (text : JsonText) (block : Json) :
    Except ApiError ToolCall := do
  match block.stringAt? (ascii "id") with
  | none | some [] =>
    badRequest (ascii "tool_use blocks must contain a string id")
      (ascii "messages")
  | some id =>
    let name ← requireFunctionName block "messages"
    match block.find? (ascii "input") with
    | some (.object members) =>
      .ok ⟨id, name, text.dump (.object members)⟩
    | _ =>
      badRequest (ascii "tool_use blocks must contain an input object")
        (ascii "messages")

/-- A block of a tool result. -/
def parseToolResultPart (part : Json) : Except ApiError ContentPart := do
  let type ← requireBlockType part "messages"
  if type = ascii "text" then
    let text ← requireStringField part "text" "text block"
    .ok (.text text (ascii "text"))
  else if type = ascii "image" then
    .ok (.image (← parseImageSource part) (ascii "image"))
  else
    badRequest (ascii "unsupported tool_result content block: " ++ type)
      (ascii "messages")

/-- `parse_tool_result_content`. -/
def parseToolResultContent (block : Json) : Except ApiError (List ContentPart) :=
  match block.present? (ascii "content") with
  | none => .ok [.text [] (ascii "text")]
  | some (.string s) => .ok [.text s (ascii "text")]
  | some (.array parts) => parts.mapM parseToolResultPart
  | some _ =>
    badRequest (ascii "tool_result content must be a string or array of blocks")
      (ascii "messages")

/-- The locals of `parse_assistant_content`. -/
structure AssistantContent where
  text : Bytes := []
  reasoning : Bytes := []
  toolCalls : List ToolCall := []

/-- A block of an assistant message. -/
def parseAssistantBlock (json : JsonText) (acc : AssistantContent)
    (block : Json) : Except ApiError AssistantContent := do
  let type ← requireBlockType block "messages"
  if type = ascii "text" then
    let piece ← requireStringField block "text" "text block"
    .ok { acc with text := appendText acc.text piece }
  else if type = ascii "thinking" then
    match block.stringAt? (ascii "thinking") with
    | some piece =>
      .ok { acc with reasoning := appendText acc.reasoning piece }
    | none => .ok acc
  else if type = ascii "redacted_thinking" then .ok acc
  else if type = ascii "tool_use" then
    let call ← parseToolUse json block
    .ok { acc with toolCalls := acc.toolCalls ++ [call] }
  else
    badRequest (ascii "unsupported assistant content block: " ++ type)
      (ascii "messages")

/-- `parse_assistant_content`. -/
def parseAssistantContent (json : JsonText) (content : List Json) :
    Except ApiError (List ChatTurn) := do
  let acc ← content.foldlM (parseAssistantBlock json) {}
  if acc.text.isEmpty && acc.toolCalls.isEmpty && acc.reasoning.isEmpty then
    badRequest (ascii
      "assistant message must have text, thinking, or tool_use content")
      (ascii "messages")
  else
    .ok [{ role := .assistant, reasoningContent := acc.reasoning,
           toolCalls := acc.toolCalls,
           content :=
             if acc.text.isEmpty then []
             else [.text acc.text (ascii "text")] }]

/-- `flush_user_turn`. -/
def flushUserTurn (content : List ContentPart) : List ChatTurn :=
  if content.isEmpty then [] else [{ role := .user, content := content }]

/-- The blocks of a user message: `content` is the turn so far. -/
def parseUserBlocks : List ContentPart → List Json →
    Except ApiError (List ChatTurn)
  | content, [] => .ok (flushUserTurn content)
  | content, block :: rest => do
    let type ← requireBlockType block "messages"
    if type = ascii "text" then
      let text ← requireStringField block "text" "text block"
      parseUserBlocks (content ++ [.text text (ascii "text")]) rest
    else if type = ascii "tool_result" then
      match block.stringAt? (ascii "tool_use_id") with
      | none | some [] =>
        badRequest (ascii "tool_result blocks must contain a string tool_use_id")
          (ascii "messages")
      | some id =>
        let result ← parseToolResultContent block
        let more ← parseUserBlocks [] rest
        .ok (flushUserTurn content
          ++ { role := .tool, toolCallId := id, content := result }
            :: more)
    else if type = ascii "image" then
      let source ← parseImageSource block
      parseUserBlocks (content ++ [.image source (ascii "image")]) rest
    else
      badRequest (ascii "unsupported user content block: " ++ type)
        (ascii "messages")

-- ============ the messages

/-- The role of a message. -/
def parseRole (item : Json) (index : Nat) : Except ApiError ChatRole := do
  if !item.isObject then
    badRequest (ascii "message " ++ indexText index
      ++ ascii " must be an object") (ascii "messages")
  else
    match item.stringAt? (ascii "role") with
    | none =>
      badRequest (ascii "message " ++ indexText index
        ++ ascii " must have a string role") (ascii "messages")
    | some role =>
      let parsed ←
        if role = ascii "user" then .ok ChatRole.user
        else if role = ascii "assistant" then .ok .assistant
        else if role = ascii "system" then .ok .system
        else
          badRequest (ascii
            "message role must be 'user', 'assistant', or 'system'")
            (ascii "messages") (ascii "unsupported_role")
      if (item.present? (ascii "content")).isSome then .ok parsed
      else
        badRequest (ascii "message " ++ indexText index
          ++ ascii " must have content") (ascii "messages")

/-- The roles of the messages. -/
def parseRoles : Nat → List Json → Except ApiError (List ChatRole)
  | _, [] => .ok []
  | index, item :: rest => do
    let role ← parseRole item index
    let roles ← parseRoles (index + 1) rest
    .ok (role :: roles)

/-- The place of the system messages: a section of them follows a user
message, and is final or precedes an assistant message. `previous` is the
role before. -/
def systemPlaced : Option ChatRole → List ChatRole → Bool
  | _, [] => true
  | previous, role :: rest =>
    if role = .system then
      (previous = some .user || previous = some .system)
        && (match rest.head? with
          | none => true
          | some next => next = .system || next = .assistant)
        && systemPlaced (some role) rest
    else systemPlaced (some role) rest

/-- The content of a message. -/
def parseContent (json : JsonText) (role : ChatRole) (content : Json)
    (index : Nat) : Except ApiError (List ChatTurn) :=
  if role = .system then do
    let text ← flattenSystemValue content "messages"
    .ok [textTurn .system text]
  else
    match content with
    | .string s => .ok [textTurn role s]
    | .array blocks =>
      if role = .assistant then parseAssistantContent json blocks
      else parseUserBlocks [] blocks
    | _ =>
      badRequest (ascii "message " ++ indexText index
        ++ ascii " content must be a string or array") (ascii "messages")

/-- The contents of the messages. -/
def parseContents (json : JsonText) :
    Nat → List (Json × ChatRole) → Except ApiError (List ChatTurn)
  | _, [] => .ok []
  | index, (item, role) :: rest => do
    let turns ← parseContent json role
      ((item.find? (ascii "content")).getD .null) index
    let more ← parseContents json (index + 1) rest
    .ok (turns ++ more)

/-- The three passes over the messages. -/
def parseMessageList (json : JsonText) (items : List Json) :
    Except ApiError (List ChatTurn) := do
  let roles ← parseRoles 0 items
  if !systemPlaced none roles then
    badRequest (ascii ("system messages must follow a user/tool_result " ++
      "message and be final or precede an assistant message"))
      (ascii "messages") (ascii "invalid_message_order")
  else parseContents json 0 (items.zip roles)

/-- `parse_messages`. -/
def parseMessages (json : JsonText) (messages : Option Json) :
    Except ApiError (List ChatTurn) :=
  match messages with
  | none =>
    badRequest (ascii "missing required field: messages") (ascii "messages")
  | some (.array (item :: rest)) => parseMessageList json (item :: rest)
  | some _ =>
    badRequest (ascii "messages must be a non-empty array") (ascii "messages")

-- ============ the request

/-- `parse_stop_sequences`. -/
def parseStopSequences (body : Json) : Except ApiError (List Bytes) :=
  match body.present? (ascii "stop_sequences") with
  | none => .ok []
  | some (.array items) => stopEntries "stop_sequences" items
  | some _ =>
    badRequest (ascii "stop_sequences must be an array of strings")
      (ascii "stop_sequences")

/-- `parse_sampling`. -/
def parseSampling (body : Json) : Except ApiError SamplingParams := do
  let temperature ← getNumber body "temperature"
  let topP ← getNumber body "top_p"
  let topK ← getInt body "top_k"
  .ok { temperature := temperature, topP := topP, topK := topK }

/-- `parse_output_config`. -/
def parseOutputConfig (body : Json) :
    Except ApiError (Option RequestedReasoningEffort) :=
  match body.present? (ascii "output_config") with
  | none => .ok none
  | some (.object members) =>
    match members.find? fun m => m.1 ≠ ascii "effort" && !m.2.isNull with
    | some (key, _) =>
      badRequest (ascii "output_config." ++ key
        ++ ascii " is not supported") (ascii "output_config")
        (ascii "output_config_option_not_supported")
    | none =>
      match (Json.object members).present? (ascii "effort") with
      | none => .ok none
      | some (.string value) =>
        match parseRequestedReasoningEffort value with
        | none | some .none | some .minimal =>
          badRequest (ascii "output_config.effort must be one of low, medium, high, xhigh, or max")
            (ascii "output_config.effort")
        | some effort => .ok (some effort)
      | some _ =>
        badRequest (ascii "output_config.effort must be a string")
          (ascii "output_config.effort")
  | some _ =>
    badRequest (ascii "output_config must be an object") (ascii "output_config")

/-- What `parse_thinking` sets, over the effort of the output config. -/
def parseThinking (body : Json) (out : GenerationRequest) :
    Except ApiError GenerationRequest :=
  match body.present? (ascii "thinking") with
  | none => .ok out
  | some thinking =>
    match thinking.stringAt? (ascii "type") with
    | none =>
      badRequest (ascii "thinking must be an object with a string type")
        (ascii "thinking")
    | some type =>
      if type = ascii "disabled" then
        .ok { out with
          enableThinking := some false
          reasoningEffort := some .none
          reasoningEffortParam := ascii "thinking.type"
          enableThinkingParam := ascii "thinking.type" }
      else if type = ascii "enabled" ∨ type = ascii "adaptive" then
        .ok { out with
          enableThinking := some true
          enableThinkingParam := ascii "thinking.type" }
      else
        badRequest
          (ascii "thinking.type must be one of disabled, enabled, or adaptive")
          (ascii "thinking.type")

/-- `parse_messages_request`. -/
def parseMessagesRequest (json : JsonText) (defaultMaxTokens : Int)
    (body : Json) : Except ApiError GenerationRequest := do
  requireObject body
  let model ← requireModel body
  let tools ← parseTools json body
  let toolChoice ← parseToolChoice body tools
  let system ← parseSystem body
  let messages ← parseMessages json (body.find? (ascii "messages"))
  let stopStrings ← parseStopSequences body
  let sampling ← parseSampling body
  let effort ← parseOutputConfig body
  let out ← parseThinking body
    { model := model, messages := system ++ messages, tools := tools,
      toolNameMaxLength := maxToolNameLength, toolChoice := toolChoice,
      stopStrings := stopStrings, sampling := sampling,
      reasoningEffort := effort,
      reasoningEffortParam :=
        if effort.isSome then ascii "output_config.effort"
        else ascii "reasoning_effort" }
  let preserveThinking ← thinkingMember body
    "preserve_thinking must be a boolean or null" "preserve_thinking"
  let stream ← getBool body "stream" false
  let maxTokens ← getInt body "max_tokens"
  let (maxTokens, maxTokensSet) ← parseMaxTokens maxTokens defaultMaxTokens
  .ok { out with
    preserveThinking := preserveThinking
    stream := stream
    maxTokens := maxTokens
    maxTokensSet := maxTokensSet }

-- ============ the response

/-- The block of a tool call: its arguments, or an empty object where they
do not parse to one. -/
def toolUseBlock (json : JsonText) (call : ToolCall) : Json :=
  .ofMembers [(ascii "type", .string (ascii "tool_use")),
    (ascii "id", .string call.id), (ascii "name", .string call.name),
    (ascii "input",
      match json.parse call.argumentsJson with
      | some (.object members) => .object members
      | _ => .object [])]

/-- The `content` of a response (`make_messages_response`). -/
def messageBlocks (json : JsonText) (outcome : GenerationOutcome) : List Json :=
  let blocks :=
    (if outcome.reasoning.isEmpty then []
      else [Json.ofMembers [(ascii "type", .string (ascii "thinking")),
        (ascii "thinking", .string outcome.reasoning),
        (ascii "signature", .string [])]])
    ++ (if outcome.text.isEmpty then []
      else [.ofMembers [(ascii "type", .string (ascii "text")),
        (ascii "text", .string outcome.text)]])
    ++ outcome.toolCalls.map (toolUseBlock json)
  if blocks.isEmpty then
    [.ofMembers [(ascii "type", .string (ascii "text")),
      (ascii "text", .string [])]]
  else blocks

end Ginfer.Serve.Anthropic
