/-
The chat template (targets/qwen3_6/impl/frontend/chat_template.{h,cpp}).

`render` turns a conversation into the prompt's text. It is one loop over
the messages, appending to `rendered`; how a message is written depends on
more than itself in three places only. A tool message opens or closes a
group by looking at its neighbours. An assistant message keeps its
reasoning only after the last real user query (unless all reasoning is
preserved). And pictures and videos are numbered through the conversation.

So a longer conversation may write an earlier message differently, and
`render` publishes the offset up to which it will not: the rewrite
checkpoint. It is set at the first assistant message after the last query,
or at the generation prompt, or — where reasoning is preserved — at the
end of the text.

The JSON library is a parameter.
-/
import Ginfer.Frontend.Text

namespace Ginfer.Frontend.ChatTemplate

open Ginfer.Lib

-- ============ messages

/-- `ChatRole`. -/
inductive ChatRole where
  | system | developer | user | assistant | tool
deriving DecidableEq

/-- `ReasoningEffort`. -/
inductive ReasoningEffort where
  | low | medium | high | xhigh

/-- `ChatPart`; the media themselves are not read here. -/
inductive ChatPart where
  | text (text : Bytes)
  | image
  | video
deriving DecidableEq

/-- `frontend_internal::ToolCall`, without its id. -/
structure ToolCall where
  name : Bytes
  argumentsJson : Bytes

structure ChatMessage where
  role : ChatRole
  parts : List ChatPart
  reasoningContent : Bytes := []
  toolCalls : List ToolCall := []
  toolCallId : Bytes := []

structure ChatRenderOptions where
  addGenerationPrompt : Bool := true
  enableThinking : Bool := true
  reasoningEffort : Option ReasoningEffort := none
  preserveThinking : Option Bool := none
  addVisionId : Bool := false
  toolJsons : List Bytes := []

/-- `RewriteCheckpointKind`. -/
inductive RewriteCheckpointKind where
  | turnClosure | responseReplay
deriving DecidableEq

structure RewriteCheckpointByteSpec where
  kind : RewriteCheckpointKind
  offset : Nat
deriving DecidableEq

structure RenderedChat where
  text : Bytes
  rewriteCheckpoint : Option RewriteCheckpointByteSpec
deriving DecidableEq

/-- `ChatTemplateSemantics`. -/
inductive ChatTemplateSemantics where
  | thinkingToggle | reasoningEffort
deriving DecidableEq

-- ============ text helpers

/-- `trim_ascii_whitespace`. -/
def trimAsciiWhitespace (text : Bytes) : Bytes :=
  ((text.dropWhile isSpace).reverse.dropWhile isSpace).reverse

/-- `lstrip_newlines`. -/
def lstripNewlines (text : Bytes) : Bytes := text.dropWhile (· == 0x0a)

/-- `rstrip_newlines`. -/
def rstripNewlines (text : Bytes) : Bytes :=
  (text.reverse.dropWhile (· == 0x0a)).reverse

/-- `std::string::rfind`: where `pattern` last occurs. -/
def rfind (text pattern : Bytes) : Option Nat :=
  (List.range (text.length + 1)).reverse.find? fun i =>
    pattern.isPrefixOf (text.drop i)

/-- `is_instruction_role`. -/
def isInstructionRole (role : ChatRole) : Bool :=
  role = .system || role = .developer

namespace ChatMessage

/-- `has_media`. -/
def hasMedia (message : ChatMessage) : Bool :=
  message.parts.any fun
    | .text _ => false
    | .image | .video => true

/-- The body of `rendered_content`'s loop: the text so far, and the images
and videos seen. -/
def renderPart (addVisionId : Bool) :
    Bytes × Nat × Nat → ChatPart → Bytes × Nat × Nat
  | (out, images, videos), .text text => (out ++ text, images, videos)
  | (out, images, videos), .image =>
    (out ++ (if addVisionId then
        ascii "Picture " ++ ascii (toString (images + 1)) ++ ascii ": "
      else []) ++ ascii "<|vision_start|><|image_pad|><|vision_end|>",
      images + 1, videos)
  | (out, images, videos), .video =>
    (out ++ (if addVisionId then
        ascii "Video " ++ ascii (toString (videos + 1)) ++ ascii ": "
      else []) ++ ascii "<|vision_start|><|video_pad|><|vision_end|>",
      images, videos + 1)

/-- `rendered_content`, with the counts it leaves. -/
def renderedContent (message : ChatMessage) (addVisionId : Bool)
    (images videos : Nat) : Bytes × Nat × Nat :=
  message.parts.foldl (renderPart addVisionId) ([], images, videos)

end ChatMessage

/-- `validate_instruction_message`. -/
def validateInstructionMessage (message : ChatMessage) : Except Exception Unit :=
  if message.hasMedia then
    .error (.invalidArgument
      "system and developer messages cannot contain images or videos")
  else if !message.reasoningContent.isEmpty || !message.toolCalls.isEmpty
      || !message.toolCallId.isEmpty then
    .error (.invalidArgument
      "system and developer messages may contain only text content")
  else .ok ()

/-- `last_real_user_query`'s test of one message. -/
def isRealUserQuery (message : ChatMessage) : Bool :=
  let content := trimAsciiWhitespace (message.renderedContent false 0 0).1
  message.role = .user &&
    !((ascii "<tool_response>").isPrefixOf content &&
      (ascii "</tool_response>").isSuffixOf content)

/-- `last_real_user_query`. -/
def lastRealUserQuery (messages : List ChatMessage) : Except Exception Nat :=
  match messages.zipIdx.reverse.find? fun m => isRealUserQuery m.1 with
  | some (_, i) => .ok i
  | none => .error (.invalidArgument "no user query found in chat messages")

/-- `ThinkParts`. -/
structure ThinkParts where
  reasoning : Bytes
  content : Bytes

/-- `derive_think_parts`. -/
def deriveThinkParts (content : Bytes) : ThinkParts :=
  match find content (ascii "</think>") with
  | none => ⟨[], content⟩
  | some firstClose =>
    let before := rstripNewlines (content.take firstClose)
    let reasoning :=
      match rfind before (ascii "<think>") with
      | none => before
      | some lastOpen => before.drop (lastOpen + (ascii "<think>").length)
    let lastClose := (rfind content (ascii "</think>")).getD 0
    ⟨lstripNewlines reasoning,
      lstripNewlines (content.drop (lastClose + (ascii "</think>").length))⟩

-- ============ JSON

/-- `nlohmann::ordered_json`, with null, booleans and numbers as `dump`
prints them. -/
inductive OrderedJson where
  | scalar (dump : Bytes)
  | string (value : Bytes)
  | array (items : List OrderedJson)
  | object (members : List (Bytes × OrderedJson))

/-- What the template uses of the JSON library. -/
structure JsonLibrary where
  parse : Bytes → Except Exception OrderedJson
  dumpString : Bytes → Bytes

mutual

/-- `tojson_text`. -/
def tojsonText (lib : JsonLibrary) : OrderedJson → Bytes
  | .scalar dump => dump
  | .string value => lib.dumpString value
  | .array items =>
    ascii "[" ++ (ascii ", ").intercalate (tojsonItems lib items) ++ ascii "]"
  | .object members =>
    ascii "\x7b" ++ (ascii ", ").intercalate (tojsonMembers lib members) ++
      ascii "\x7d"

def tojsonItems (lib : JsonLibrary) : List OrderedJson → List Bytes
  | [] => []
  | item :: rest => tojsonText lib item :: tojsonItems lib rest

def tojsonMembers (lib : JsonLibrary) : List (Bytes × OrderedJson) → List Bytes
  | [] => []
  | (key, value) :: rest =>
    (lib.dumpString key ++ ascii ": " ++ tojsonText lib value) ::
      tojsonMembers lib rest

end

/-- `parameter_text`. -/
def parameterText (lib : JsonLibrary) : OrderedJson → Bytes
  | .string value => value
  | value => tojsonText lib value

/-- `render_tool_call`. -/
def renderToolCall (lib : JsonLibrary) (call : ToolCall)
    (allowEmptyArguments : Bool) : Except Exception Bytes :=
  if allowEmptyArguments && call.argumentsJson.isEmpty then
    .ok (ascii "<tool_call>\n<function=" ++ call.name ++
      ascii ">\n</function>\n</tool_call>")
  else do
    match ← lib.parse call.argumentsJson with
    | .object members =>
      .ok (ascii "<tool_call>\n<function=" ++ call.name ++ ascii ">\n" ++
        (members.flatMap fun (key, value) =>
          ascii "<parameter=" ++ key ++ ascii ">\n" ++
            parameterText lib value ++ ascii "\n</parameter>\n") ++
        ascii "</function>\n</tool_call>")
    | _ =>
      .error (.invalidArgument "tool call arguments must be a JSON object")

-- ============ the system block

/-- `kLowReasoningInstructions`. -/
def lowReasoningInstructions : Bytes := ascii
  ("Reasoning effort is set to low. Keep your thinking brief and focused, " ++
    "moving directly to the conclusion without unnecessary elaboration.")

/-- `kXHighReasoningInstructions`. -/
def xHighReasoningInstructions : Bytes := ascii
  ("Reasoning effort is set to xhigh. Please think carefully through the " ++
    "task, validate key assumptions, consider plausible alternatives, and " ++
    "prioritize correctness, consistency, and clarity in the final answer.")

/-- `kToolInstructions`. -/
def toolInstructions : Bytes := ascii
  ("\n\nIf you choose to call a function ONLY reply in the following " ++
    "format with NO suffix:\n\n" ++
    "<tool_call>\n" ++
    "<function=example_function_name>\n" ++
    "<parameter=example_parameter_1>\n" ++
    "value_1\n" ++
    "</parameter>\n" ++
    "<parameter=example_parameter_2>\n" ++
    "This is the value for the second parameter\n" ++
    "that can span\n" ++
    "multiple lines\n" ++
    "</parameter>\n" ++
    "</function>\n" ++
    "</tool_call>\n\n" ++
    "<IMPORTANT>\n" ++
    "Reminder:\n" ++
    "- Function calls MUST follow the specified format: an inner " ++
    "<function=...></function> block must be nested within " ++
    "<tool_call></tool_call> XML tags\n" ++
    "- Required parameters MUST be specified\n" ++
    "- You may provide optional reasoning for your function call in " ++
    "natural language BEFORE the function call, but NOT after\n" ++
    "- If there is no function call available, answer the question like " ++
    "normal with your current knowledge and do not tell the user about " ++
    "function calls\n" ++
    "</IMPORTANT>")

/-- `resolve_reasoning_instructions`. -/
def resolveReasoningInstructions (semantics : ChatTemplateSemantics)
    (options : ChatRenderOptions) : Except Exception Bytes :=
  match semantics with
  | .thinkingToggle =>
    if options.reasoningEffort.isSome then
      .error (.invalidArgument
        "loaded chat template does not support reasoning effort")
    else .ok []
  | .reasoningEffort =>
    if !options.enableThinking then
      if options.reasoningEffort.isSome then
        .error (.invalidArgument
          "reasoning effort cannot be combined with disabled thinking")
      else .ok []
    else
      match options.reasoningEffort.getD .xhigh with
      | .low => .ok lowReasoningInstructions
      | .medium => .ok []
      | .high =>
        .error (.invalidArgument
          "loaded chat template does not support high reasoning effort")
      | .xhigh => .ok xHighReasoningInstructions

/-- The tool list of `render_tools_system_block`. -/
def renderTools (lib : JsonLibrary) (rendered : Bytes) :
    List Bytes → Except Exception Bytes
  | [] => .ok rendered
  | tool :: rest => do
    let json ← lib.parse tool
    renderTools lib (rendered ++ ascii "\n" ++ tojsonText lib json) rest

/-- `render_tools_system_block`. -/
def renderToolsSystemBlock (lib : JsonLibrary) (toolJsons : List Bytes)
    (leadingInstruction reasoningInstructions : Bytes) :
    Except Exception Bytes := do
  let rendered ← renderTools lib
    (ascii "<|im_start|>system\n" ++
      (if !reasoningInstructions.isEmpty then
        reasoningInstructions ++ ascii "\n\n"
      else []) ++
      ascii ("# Tools\n\nYou have access to the following functions:\n\n" ++
        "<tools>")) toolJsons
  .ok (rendered ++ ascii "\n</tools>" ++ toolInstructions ++
    (if !leadingInstruction.isEmpty then
      ascii "\n\n" ++ leadingInstruction
    else []) ++ ascii "<|im_end|>\n")

/-- The leading instruction of a conversation and `message_begin`. -/
def leadingInstruction (first : ChatMessage) : Except Exception (Nat × Bytes) :=
  if isInstructionRole first.role then do
    validateInstructionMessage first
    .ok (1, trimAsciiWhitespace (first.renderedContent false 0 0).1)
  else .ok (0, [])

/-- What `render` writes before its loop. -/
def renderSystemBlock (lib : JsonLibrary) (effortTemplate : Bool)
    (options : ChatRenderOptions) (messageBegin : Nat)
    (leading reasoningInstructions : Bytes) : Except Exception Bytes :=
  if !options.toolJsons.isEmpty then
    renderToolsSystemBlock lib options.toolJsons leading reasoningInstructions
  else if messageBegin = 1 then
    if !effortTemplate || !leading.isEmpty
        || !reasoningInstructions.isEmpty then
      .ok (ascii "<|im_start|>system\n" ++
        (if !reasoningInstructions.isEmpty then
          reasoningInstructions ++ (if !leading.isEmpty then ascii "\n\n" else [])
        else []) ++ leading ++ ascii "<|im_end|>\n")
    else .ok []
  else if !reasoningInstructions.isEmpty then
    .ok (ascii "<|im_start|>system\n" ++ reasoningInstructions ++
      ascii "<|im_end|>\n")
  else .ok []

-- ============ the loop

/-- What `render` fixes before its loop. -/
structure RenderContext where
  effortTemplate : Bool
  preserveThinking : Bool
  addVisionId : Bool
  messageBegin : Nat

/-- What its loop writes. -/
structure RenderState where
  rendered : Bytes
  rewriteCheckpoint : Option RewriteCheckpointByteSpec
  imageCount : Nat
  videoCount : Nat

/-- `"<|im_start|>assistant\n"`. -/
def assistantHeader : Bytes := ascii "<|im_start|>assistant\n"

/-- An assistant message's `reasoning` and `body`, from its content. -/
def assistantParts (effortTemplate : Bool) (message : ChatMessage)
    (content : Bytes) : ThinkParts :=
  if !message.reasoningContent.isEmpty then
    ⟨trimAsciiWhitespace message.reasoningContent, content⟩
  else if !effortTemplate then
    let parts := deriveThinkParts content
    ⟨trimAsciiWhitespace parts.reasoning, parts.content⟩
  else ⟨trimAsciiWhitespace [], content⟩

/-- The calls of an assistant message, from `call_index` on. -/
def renderToolCalls (lib : JsonLibrary) (effortTemplate bodyHasText : Bool) :
    Nat → List ToolCall → Except Exception Bytes
  | _, [] => .ok []
  | callIndex, call :: rest => do
    let text ← renderToolCall lib call effortTemplate
    let more ←
      renderToolCalls lib effortTemplate bodyHasText (callIndex + 1) rest
    .ok ((if callIndex = 0 then
        if bodyHasText then ascii "\n\n" else []
      else ascii "\n") ++ text ++ more)

/-- What an assistant message writes after its header. -/
def renderAssistantBody (lib : JsonLibrary) (effortTemplate : Bool)
    (keepThinking : Bool) (message : ChatMessage) (content : Bytes) :
    Except Exception Bytes := do
  let parts := assistantParts effortTemplate message content
  let calls ← renderToolCalls lib effortTemplate
    (!(trimAsciiWhitespace parts.content).isEmpty) 0 message.toolCalls
  .ok ((if keepThinking then
      ascii "<think>\n" ++ parts.reasoning ++ ascii "\n</think>\n\n"
    else []) ++ parts.content ++ calls ++ ascii "<|im_end|>\n")

/-- A tool message: `messages` are its neighbours. -/
def renderToolResponse (messages : List ChatMessage) (i : Nat)
    (content : Bytes) : Bytes :=
  let opensGroup := i > 0 && (messages[i - 1]?.map (·.role)) ≠ some .tool
  let closesGroup :=
    i + 1 = messages.length || (messages[i + 1]?.map (·.role)) ≠ some .tool
  (if opensGroup then ascii "<|im_start|>user" else []) ++
    ascii "\n<tool_response>\n" ++ content ++ ascii "\n</tool_response>" ++
    (if closesGroup then ascii "<|im_end|>\n" else [])

/-- `rewrite_checkpoint = {TurnClosure, rendered.size()}`, where none is
set and reasoning is not preserved. -/
def turnClosure (preserveThinking : Bool) (rendered : Bytes)
    (checkpoint : Option RewriteCheckpointByteSpec) :
    Option RewriteCheckpointByteSpec :=
  if !preserveThinking && checkpoint.isNone then
    some ⟨.turnClosure, rendered.length⟩
  else checkpoint

/-- The body of the loop of `render` for a message that is not skipped,
with its content. -/
def renderByRole (lib : JsonLibrary) (ctx : RenderContext)
    (messages : List ChatMessage) (lastQueryIndex : Nat)
    (s : RenderState) (message : ChatMessage) (i : Nat) (content : Bytes) :
    Except Exception RenderState :=
  match message.role with
  | .system | .developer =>
    .ok { s with rendered := s.rendered ++ ascii "<|im_start|>system\n" ++
      content ++ ascii "<|im_end|>\n" }
  | .user =>
    .ok { s with rendered := s.rendered ++ ascii "<|im_start|>user\n" ++
      content ++ ascii "<|im_end|>\n" }
  | .tool =>
    .ok { s with rendered := s.rendered ++ renderToolResponse messages i content }
  | .assistant => do
    let keepThinking := ctx.preserveThinking || lastQueryIndex < i
    let opened := s.rendered ++ assistantHeader
    let body ← renderAssistantBody lib ctx.effortTemplate keepThinking
      message content
    .ok { s with
      rendered := opened ++ body
      rewriteCheckpoint :=
        if lastQueryIndex < i then
          turnClosure ctx.preserveThinking opened s.rewriteCheckpoint
        else s.rewriteCheckpoint }

/-- The loop's body. -/
def renderMessage (lib : JsonLibrary) (ctx : RenderContext)
    (messages : List ChatMessage) (lastQueryIndex : Nat)
    (s : RenderState) (entry : ChatMessage × Nat) :
    Except Exception RenderState :=
  if entry.2 < ctx.messageBegin then .ok s
  else do
    if isInstructionRole entry.1.role then
      validateInstructionMessage entry.1
    let (content, images, videos) := entry.1.renderedContent
      ctx.addVisionId s.imageCount s.videoCount
    renderByRole lib ctx messages lastQueryIndex
      { s with imageCount := images, videoCount := videos }
      entry.1 entry.2 (trimAsciiWhitespace content)

/-- What the generation prompt opens the answer with. -/
def generationPrologue (options : ChatRenderOptions) : Bytes :=
  if options.enableThinking then ascii "<think>\n"
  else ascii "<think>\n\n</think>\n\n"

/-- What `render` does after its loop. -/
def finishRender (options : ChatRenderOptions) (preserveThinking : Bool)
    (s : RenderState) : RenderedChat :=
  if options.addGenerationPrompt then
    let opened := s.rendered ++ assistantHeader
    let text := opened ++ generationPrologue options
    ⟨text,
      if preserveThinking then some ⟨.responseReplay, text.length⟩
      else turnClosure preserveThinking opened s.rewriteCheckpoint⟩
  else ⟨s.rendered, s.rewriteCheckpoint⟩

/-- `render`. -/
def render (lib : JsonLibrary) (semantics : ChatTemplateSemantics)
    (messages : List ChatMessage) (options : ChatRenderOptions) :
    Except Exception RenderedChat :=
  match messages.head? with
  | none => .error (.invalidArgument "chat messages must not be empty")
  | some first => do
    let effortTemplate := semantics = .reasoningEffort
    let reasoningInstructions ←
      resolveReasoningInstructions semantics options
    let (messageBegin, leading) ← leadingInstruction first
    let rendered ← renderSystemBlock lib effortTemplate options
      messageBegin leading reasoningInstructions
    let lastQueryIndex ← lastRealUserQuery messages
    let preserveThinking :=
      options.preserveThinking.getD effortTemplate
    let s ← messages.zipIdx.foldlM
      (renderMessage lib
        ⟨effortTemplate, preserveThinking, options.addVisionId,
          messageBegin⟩ messages lastQueryIndex)
      ⟨rendered, none, 0, 0⟩
    .ok (finishRender options preserveThinking s)

end Ginfer.Frontend.ChatTemplate
