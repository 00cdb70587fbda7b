/-
The Chat Completions wire format (serve/openai_schema.cpp).

`parse_chat_completion_request` reads a body member by member; the messages
become turns one by one, each checked on its own. The other way,
`chatMessage` is the assistant message of a response, as
`make_chat_completion_response` and `make_chat_completion_tool_response`
write it; ids, usage and the chunks of a stream are left out.
-/
import Ginfer.Serve.GenerationService
import Ginfer.Serve.Request

namespace Ginfer.Serve.Openai

open Ginfer.Lib Ginfer.Frontend
open Ginfer.Frontend.ChatTemplate (ChatRole)

-- ============ the messages

/-- `parse_message_role`. -/
def parseMessageRole (role : Bytes) : Except ApiError ChatRole :=
  if role = ascii "system" then .ok .system
  else if role = ascii "developer" then .ok .developer
  else if role = ascii "user" then .ok .user
  else if role = ascii "assistant" then .ok .assistant
  else if role = ascii "tool" then .ok .tool
  else if role = ascii "function" then
    badRequest (ascii "role 'function' is not supported yet")
      (ascii "messages") (ascii "unsupported_role")
  else
    badRequest (ascii "unsupported role: " ++ role) (ascii "messages")
      (ascii "unsupported_role")

/-- `require_function_name`. -/
def requireFunctionName : Json → String → Except ApiError Bytes :=
  Serve.requireFunctionName 64 (ascii "function name must be a string")
    (ascii "function name must match [A-Za-z0-9_-]\x7b1,64\x7d")

/-- `parse_media_url`. -/
def parseMediaUrl (part : Json) (field : String) :
    Except ApiError Source := do
  let url ←
    match part.find? (ascii field) with
    | none =>
      badRequest (ascii field ++ ascii " content part must contain "
        ++ ascii field) (ascii "messages")
    | some (.string url) => .ok url
    | some value =>
      match value.stringAt? (ascii "url") with
      | some url => .ok url
      | none =>
        badRequest (ascii field
          ++ ascii " must be a URL string or object containing url")
          (ascii "messages")
  if url.isEmpty then
    badRequest (ascii field ++ ascii " URL must not be empty") (ascii "messages")
  else if (ascii "data:").isPrefixOf url then
    .ok { kind := .data, value := url }
  else if (ascii "http://").isPrefixOf url
      || (ascii "https://").isPrefixOf url then
    .ok { kind := .url, value := url }
  else
    badRequest (ascii field ++ ascii " must use HTTP(S) or a data URI")
      (ascii "messages")

/-- A content part. -/
def parseContentPart (part : Json) (index : Nat) : Except ApiError ContentPart :=
  match part.stringAt? (ascii "type") with
  | none =>
    badRequest (ascii "message " ++ indexText index
      ++ ascii " content parts must be objects with a string 'type'")
      (ascii "messages")
  | some type =>
    if type = ascii "text" then
      match part.stringAt? (ascii "text") with
      | some text => .ok (.text text type)
      | none =>
        badRequest (ascii "text content part must contain a string 'text'")
          (ascii "messages")
    else if type = ascii "image_url" then do
      .ok (.image (← parseMediaUrl part "image_url") type)
    else if type = ascii "video_url" then do
      .ok (.video (← parseMediaUrl part "video_url") type)
    else if type = ascii "input_audio" then .ok (.inputAudio type)
    else .ok (.unsupported type)

/-- `parse_content_parts`. -/
def parseContentParts (content : Json) (index : Nat) :
    Except ApiError (List ContentPart) :=
  match content with
  | .string s => .ok [.text s (ascii "text")]
  | .array items => do
    let parts ← items.mapM fun part => parseContentPart part index
    if parts.isEmpty then
      badRequest (ascii "message " ++ indexText index
        ++ ascii " content must not be empty") (ascii "messages")
    else .ok parts
  | _ =>
    badRequest (ascii "message " ++ indexText index
      ++ ascii " content must be a string or array") (ascii "messages")

/-- An entry of `tool_calls`. -/
def parseAssistantToolCall (text : JsonText) (call : Json) :
    Except ApiError ToolCall := do
  if !call.isObject then
    badRequest (ascii "tool_calls entries must be objects") (ascii "messages")
  else
    match call.stringAt? (ascii "id") with
    | none | some [] =>
      badRequest (ascii "tool_calls entries must contain a string id")
        (ascii "messages")
    | some id =>
      if call.stringAt? (ascii "type") ≠ some (ascii "function") then
        badRequest (ascii "only function tool_calls are supported")
          (ascii "messages") (ascii "tool_type_not_supported")
      else
        match call.find? (ascii "function") with
        | some (.object members) =>
          let fn := Json.object members
          let name ← requireFunctionName fn "messages"
          match fn.stringAt? (ascii "arguments") with
          | none =>
            badRequest (ascii "function tool_calls must contain string arguments")
              (ascii "messages")
          | some arguments =>
            match text.parse arguments with
            | some (.object _) => .ok ⟨id, name, arguments⟩
            | _ =>
              badRequest
                (ascii "function tool_call arguments must be a JSON object string")
                (ascii "messages")
        | _ =>
          badRequest (ascii "tool_calls entries must contain a function object")
            (ascii "messages")

/-- `parse_assistant_tool_calls`. -/
def parseAssistantToolCalls (text : JsonText) (item : Json) (index : Nat) :
    Except ApiError (List ToolCall) :=
  match item.present? (ascii "tool_calls") with
  | none => .ok []
  | some (.array (call :: calls)) =>
    (call :: calls).mapM (parseAssistantToolCall text)
  | some _ =>
    badRequest (ascii "assistant message " ++ indexText index
      ++ ascii " tool_calls must be a non-empty array") (ascii "messages")

/-- A tool message. -/
def parseToolMessage (item : Json) : Except ApiError ChatTurn :=
  if (item.present? (ascii "tool_calls")).isSome then
    badRequest (ascii "tool messages must not contain tool_calls")
      (ascii "messages")
  else
    match item.stringAt? (ascii "tool_call_id") with
    | none | some [] =>
      badRequest (ascii "tool messages must contain a string tool_call_id")
        (ascii "messages")
    | some id =>
      match item.stringAt? (ascii "content") with
      | none =>
        badRequest (ascii "tool messages must contain string content")
          (ascii "messages")
      | some content =>
        .ok { role := .tool, toolCallId := id,
              content := [.text content (ascii "text")] }

/-- The content of an assistant message: it may be missing beside tool
calls. -/
def parseAssistantParts (item : Json) (index : Nat)
    (calls : List ToolCall) : Except ApiError (List ContentPart) :=
  match item.present? (ascii "content") with
  | some content => parseContentParts content index
  | none =>
    if calls.isEmpty then
      badRequest (ascii "assistant message " ++ indexText index
        ++ ascii " must have content or tool_calls") (ascii "messages")
    else .ok []

/-- The reasoning of an assistant message. -/
def parseReasoningContent (item : Json) (index : Nat) : Except ApiError Bytes :=
  match item.present? (ascii "reasoning_content") with
  | none => .ok []
  | some (.string s) => .ok s
  | some _ =>
    badRequest (ascii "assistant message " ++ indexText index
      ++ ascii " reasoning_content must be a string") (ascii "messages")

/-- An assistant message. -/
def parseAssistantMessage (text : JsonText) (item : Json) (index : Nat) :
    Except ApiError ChatTurn := do
  let calls ← parseAssistantToolCalls text item index
  let content ← parseAssistantParts item index calls
  let reasoning ← parseReasoningContent item index
  .ok { role := .assistant, content := content, toolCalls := calls,
        reasoningContent := reasoning }

/-- A message of another role. -/
def parsePlainMessage (role : ChatRole) (item : Json) (index : Nat) :
    Except ApiError ChatTurn :=
  if (item.present? (ascii "tool_calls")).isSome then
    badRequest (ascii "tool_calls are only valid on assistant messages")
      (ascii "messages")
  else
    match item.present? (ascii "content") with
    | none =>
      badRequest (ascii "message " ++ indexText index
        ++ ascii " must have content") (ascii "messages")
    | some content => do
      .ok { role := role, content := ← parseContentParts content index }

/-- A message by its role; `tool_call_id` belongs to tool messages. -/
def parseMessageAs (text : JsonText) (role : ChatRole) (item : Json)
    (index : Nat) : Except ApiError ChatTurn :=
  if role = .tool then parseToolMessage item
  else if (item.present? (ascii "tool_call_id")).isSome then
    badRequest (ascii "tool_call_id is only valid on tool messages")
      (ascii "messages")
  else if role = .assistant then parseAssistantMessage text item index
  else parsePlainMessage role item index

/-- A message. -/
def parseMessage (text : JsonText) (item : Json) (index : Nat) :
    Except ApiError ChatTurn :=
  if !item.isObject then
    badRequest (ascii "message " ++ indexText index
      ++ ascii " must be an object") (ascii "messages")
  else
    match item.stringAt? (ascii "role") with
    | none =>
      badRequest (ascii "message " ++ indexText index
        ++ ascii " must have a string role") (ascii "messages")
    | some role => do
      let role ← parseMessageRole role
      if (item.present? (ascii "function_call")).isSome then
        badRequest (ascii "message function_call is not supported")
          (ascii "messages") (ascii "tools_not_supported")
      else parseMessageAs text role item index

/-- The loop of `parse_messages`. -/
def parseMessageList (text : JsonText) :
    Nat → List Json → Except ApiError (List ChatTurn)
  | _, [] => .ok []
  | index, item :: rest => do
    let turn ← parseMessage text item index
    let turns ← parseMessageList text (index + 1) rest
    .ok (turn :: turns)

/-- `parse_messages`. -/
def parseMessages (text : JsonText) (messages : Option Json) :
    Except ApiError (List ChatTurn) :=
  match messages with
  | none =>
    badRequest (ascii "missing required field: messages") (ascii "messages")
  | some (.array (item :: rest)) => parseMessageList text 0 (item :: rest)
  | some _ =>
    badRequest (ascii "messages must be a non-empty array") (ascii "messages")

-- ============ the tools

/-- The parameters of a function tool: an object, or a default. -/
def toolParameters (fn : Json) : Except ApiError Json :=
  match fn.present? (ascii "parameters") with
  | none =>
    .ok (.ofMembers [(ascii "type", .string (ascii "object")),
      (ascii "properties", .object [])])
  | some (.object members) => .ok (.object members)
  | some _ =>
    badRequest (ascii "function parameters must be a JSON object") (ascii "tools")

/-- The description of a function tool. -/
def toolDescription (fn : Json) : Except ApiError Bytes :=
  match fn.present? (ascii "description") with
  | none => .ok []
  | some (.string s) => .ok s
  | some _ =>
    badRequest (ascii "function description must be a string") (ascii "tools")

/-- The `strict` flag of a function tool. -/
def toolStrict (fn : Json) : Except ApiError Bool :=
  match fn.present? (ascii "strict") with
  | none => .ok false
  | some (.boolean b) => .ok b
  | some _ =>
    badRequest (ascii "function strict must be a boolean") (ascii "tools")

/-- Assignment to a member. -/
def setMember (key : String) (value : Json) : Json → Json
  | .object members => .object (Json.insert (ascii key) value members)
  | other => other

/-- An entry of `tools`: the definition is the entry itself, with the
parameters and the flag filled in. -/
def parseTool (text : JsonText) (item : Json) :
    Except ApiError ToolDefinition := do
  if !item.isObject then
    badRequest (ascii "tools entries must be objects") (ascii "tools")
  else
    match item.stringAt? (ascii "type") with
    | none =>
      badRequest (ascii "tools entries must contain a string type")
        (ascii "tools")
    | some type =>
      if type ≠ ascii "function" then
        badRequest (ascii "only function tools are supported")
          (ascii "tools") (ascii "tool_type_not_supported")
      else
        match item.find? (ascii "function") with
        | some (.object members) =>
          let fn := Json.object members
          let name ← requireFunctionName fn "tools"
          let description ← toolDescription fn
          let parameters ← toolParameters fn
          let strict ← toolStrict fn
          let fn := setMember "parameters" parameters fn
          let fn :=
            if (fn.present? (ascii "strict")).isSome then fn
            else setMember "strict" (.boolean false) fn
          .ok { name := name, description := description,
                parametersJson := text.dump parameters,
                definitionJson :=
                  text.dump (setMember "function" fn item),
                strict := strict }
        | _ =>
          badRequest (ascii "function tools must contain a function object")
            (ascii "tools")

/-- `parse_tools`. -/
def parseTools (text : JsonText) (body : Json) :
    Except ApiError (List ToolDefinition) :=
  match body.present? (ascii "tools") with
  | none => .ok []
  | some (.array items) => items.mapM (parseTool text)
  | some _ => badRequest (ascii "tools must be an array") (ascii "tools")

/-- The choice itself. -/
def readToolChoice (choice : Json) : Except ApiError ToolChoice :=
  match choice with
  | .string value =>
    if value = ascii "none" then .ok { mode := .none }
    else if value = ascii "auto" then .ok { mode := .auto }
    else if value = ascii "required" then .ok { mode := .required }
    else
      badRequest
        (ascii "tool_choice must be 'none', 'auto', 'required', or a function choice")
        (ascii "tool_choice")
  | .object members =>
    let choice := Json.object members
    if choice.stringAt? (ascii "type") ≠ some (ascii "function") then
      badRequest (ascii "only function tool_choice objects are supported")
        (ascii "tool_choice") (ascii "tool_type_not_supported")
    else
      match choice.find? (ascii "function") with
      | some (.object members) => do
        let name ←
          requireFunctionName (.object members) "tool_choice"
        .ok { mode := .named, name := name }
      | _ =>
        badRequest (ascii "function tool_choice must contain a function object")
          (ascii "tool_choice")
  | _ =>
    badRequest (ascii "tool_choice must be a string or object")
      (ascii "tool_choice")

/-- `parse_tool_choice`. -/
def parseToolChoice (body : Json) (tools : List ToolDefinition) :
    Except ApiError ToolChoice :=
  match body.present? (ascii "tool_choice") with
  | none => .ok {}
  | some choice => do
    let choice ← readToolChoice choice
    if choice.mode ≠ .none ∧ tools.isEmpty then
      badRequest (ascii "tool_choice requires tools") (ascii "tool_choice")
    else if choice.mode = .named
        ∧ !(tools.any fun tool => tool.name = choice.name) then
      badRequest (ascii "tool_choice references unknown function: "
        ++ choice.name) (ascii "tool_choice")
    else .ok choice

-- ============ the sampling

/-- `parse_stop`. -/
def parseStop (body : Json) : Except ApiError (List Bytes) :=
  match body.present? (ascii "stop") with
  | none => .ok []
  | some (.string s) => .ok (if s.isEmpty then [] else [s])
  | some (.array items) => stopEntries "stop" items
  | some _ =>
    badRequest (ascii "stop must be a string or array of strings") (ascii "stop")

/-- The digits `std::stoi` reads. -/
def leadingDigits (text : Bytes) : Bytes :=
  text.takeWhile fun b => decide (0x30 ≤ b) && decide (b ≤ 0x39)

/-- `std::stoi`; what it throws is `none`. -/
def stoi (text : Bytes) : Option Int :=
  let text := text.dropWhile isSpace
  let (negative, digits) :=
    match text with
    | 0x2d :: rest => (true, leadingDigits rest)
    | 0x2b :: rest => (false, leadingDigits rest)
    | rest => (false, leadingDigits rest)
  if digits.isEmpty then none
  else
    let value : Int :=
      digits.foldl (fun n b => 10 * n + (b.toNat - 0x30)) 0
    let value := if negative then -value else value
    if -2 ^ 31 ≤ value ∧ value < 2 ^ 31 then some value else none

/-- The entries of `logit_bias`; the first of a key stays. -/
def logitBiasEntries : List (Bytes × Json) → List (Int × Number) →
    Except ApiError (List (Int × Number))
  | [], bias => .ok bias
  | (key, value) :: rest, bias => do
    let number ←
      match value with
      | .integer n => .ok (Number.integer n)
      | .float bits => .ok (Number.float bits)
      | _ =>
        badRequest (ascii "logit_bias values must be numbers")
          (ascii "logit_bias")
    match stoi key with
    | none =>
      badRequest (ascii "logit_bias keys must be integer token ids")
        (ascii "logit_bias")
    | some id =>
      logitBiasEntries rest
        (if bias.any fun entry => entry.1 = id then bias
          else bias ++ [(id, number)])

/-- `logit_bias`. -/
def parseLogitBias (body : Json) : Except ApiError (List (Int × Number)) :=
  match body.present? (ascii "logit_bias") with
  | none => .ok []
  | some (.object members) => logitBiasEntries members []
  | some _ =>
    badRequest (ascii "logit_bias must be an object") (ascii "logit_bias")

/-- `parse_sampling`. -/
def parseSampling (body : Json) : Except ApiError SamplingParams := do
  let temperature ← getNumber body "temperature"
  let topP ← getNumber body "top_p"
  let topK ← getInt body "top_k"
  let presencePenalty ← getNumber body "presence_penalty"
  let frequencyPenalty ← getNumber body "frequency_penalty"
  let seed ← getU64 body "seed"
  let logitBias ← parseLogitBias body
  let n ← getInt body "n"
  if n.getD 1 ≠ 1 then
    badRequest (ascii "n>1 is not supported yet") (ascii "n")
      (ascii "n_not_supported")
  else
    .ok { temperature := temperature, topP := topP, topK := topK,
          presencePenalty := presencePenalty,
          frequencyPenalty := frequencyPenalty, seed := seed,
          logitBias := logitBias, n := n.getD 1 }

-- ============ the request

/-- `reject_unsupported_features`. -/
def rejectUnsupportedFeatures (body : Json) : Except ApiError Unit :=
  if (body.present? (ascii "functions")).isSome then
    badRequest (ascii "functions is not supported yet") (ascii "functions")
      (ascii "tools_not_supported")
  else if (body.present? (ascii "function_call")).isSome then
    badRequest (ascii "function_call is not supported yet")
      (ascii "function_call") (ascii "tools_not_supported")
  else
    match body.present? (ascii "response_format") with
    | none => .ok ()
    | some format =>
      if format.stringAt? (ascii "type") = some (ascii "text") then .ok ()
      else
        badRequest (ascii "only response_format \x7btype:text\x7d is supported")
          (ascii "response_format")
          (ascii "response_format_not_supported")

/-- `preserve_thinking` among the template's arguments. -/
def templateThinking (body : Json) : Except ApiError (Option Bool) :=
  match body.find? (ascii "chat_template_kwargs") with
  | none => .ok none
  | some (.object members) =>
    match members.find? fun m =>
        m.1 ≠ ascii "preserve_thinking" && !m.2.isNull with
    | some (key, _) =>
      badRequest (ascii "chat_template_kwargs." ++ key
        ++ ascii " is not supported") (ascii "chat_template_kwargs")
        (ascii "chat_template_option_not_supported")
    | none =>
      thinkingMember (.object members)
        "chat_template_kwargs.preserve_thinking must be a boolean or null" "chat_template_kwargs"
  | some _ =>
    badRequest (ascii "chat_template_kwargs must be an object")
      (ascii "chat_template_kwargs")

/-- `parse_openai_preserve_thinking`. -/
def parseOpenaiPreserveThinking (body : Json) :
    Except ApiError (Option Bool) := do
  let topLevel ← thinkingMember body
    "preserve_thinking must be a boolean or null" "preserve_thinking"
  let templateValue ← templateThinking body
  match topLevel, templateValue with
  | some a, some b =>
    if a = b then .ok (some b)
    else
      badRequest (ascii "conflicting preserve_thinking values")
        (ascii "preserve_thinking") (ascii "conflicting_template_option")
  | a, none => .ok a
  | none, b => .ok b

/-- `parse_openai_reasoning_effort`. -/
def parseOpenaiReasoningEffort (body : Json) :
    Except ApiError (Option RequestedReasoningEffort) :=
  match body.present? (ascii "reasoning_effort") with
  | none => .ok none
  | some (.string value) =>
    match parseRequestedReasoningEffort value with
    | some effort => .ok (some effort)
    | none =>
      badRequest (ascii ("reasoning_effort must be one of none, minimal, " ++
        "low, medium, high, xhigh, or max")) (ascii "reasoning_effort")
  | some _ =>
    badRequest (ascii "reasoning_effort must be a string or null")
      (ascii "reasoning_effort")

/-- `include_usage` of the stream options. -/
def parseIncludeUsage (body : Json) : Except ApiError Bool :=
  match body.find? (ascii "stream_options") with
  | some (.object members) =>
    getBool (.object members) "include_usage" false
  | _ => .ok false

/-- `enable_thinking`, where it is set. -/
def parseEnableThinking (body : Json) : Except ApiError (Option Bool) :=
  match body.present? (ascii "enable_thinking") with
  | none => .ok none
  | some _ => do .ok (some (← getBool body "enable_thinking" false))

/-- `max_completion_tokens`, or else `max_tokens`. -/
def requestedTokens (body : Json) : Except ApiError (Option Int) := do
  match ← getInt body "max_completion_tokens" with
  | some n => .ok (some n)
  | none => getInt body "max_tokens"

/-- `parse_chat_completion_request`. -/
def parseChatCompletionRequest (text : JsonText) (defaultMaxTokens : Int)
    (body : Json) : Except ApiError GenerationRequest := do
  requireObject body
  rejectUnsupportedFeatures body
  let model ← requireModel body
  let tools ← parseTools text body
  let toolChoice ← parseToolChoice body tools
  let messages ← parseMessages text (body.find? (ascii "messages"))
  let stopStrings ← parseStop body
  let sampling ← parseSampling body
  let stream ← getBool body "stream" false
  let includeUsage ← parseIncludeUsage body
  let enableThinking ← parseEnableThinking body
  let reasoningEffort ← parseOpenaiReasoningEffort body
  let preserveThinking ← parseOpenaiPreserveThinking body
  let maxTokens ← requestedTokens body
  let (maxTokens, maxTokensSet) ← parseMaxTokens maxTokens defaultMaxTokens
  .ok { model := model, messages := messages, tools := tools,
        toolChoice := toolChoice, stopStrings := stopStrings,
        maxTokens := maxTokens, maxTokensSet := maxTokensSet,
        stream := stream, includeUsage := includeUsage,
        enableThinking := enableThinking,
        reasoningEffort := reasoningEffort,
        preserveThinking := preserveThinking, sampling := sampling }

-- ============ the response

/-- An entry of `tool_calls_json`. -/
def toolCallJson (call : ToolCall) : Json :=
  .ofMembers [(ascii "id", .string call.id),
    (ascii "type", .string (ascii "function")),
    (ascii "function", .ofMembers [(ascii "name", .string call.name),
      (ascii "arguments", .string call.argumentsJson)])]

/-- The `message` of a response: `make_chat_completion_tool_response` where
there are tool calls, else `make_chat_completion_response`. -/
def chatMessage (outcome : GenerationOutcome) : Json :=
  let members :=
    if outcome.toolCalls.isEmpty then
      [(ascii "role", Json.string (ascii "assistant")),
        (ascii "content", .string outcome.text)]
    else
      [(ascii "role", .string (ascii "assistant")),
        (ascii "content",
          if outcome.text.isEmpty then .null else .string outcome.text),
        (ascii "tool_calls", .array (outcome.toolCalls.map toolCallJson))]
  .ofMembers (members ++
    if outcome.reasoning.isEmpty then []
    else [(ascii "reasoning_content", .string outcome.reasoning)])

end Ginfer.Serve.Openai
