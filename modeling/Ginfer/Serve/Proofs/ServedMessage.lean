/-
A served assistant message, put back into the history.

A message of a response is read back to the turn it came from: its
reasoning, its text and its tool calls (`Means`). The tool-call parser
accepts names that the request parsers do not, those with a dot in them, so
this holds exactly when no call has such a name; and a Messages response of
an outcome with nothing in it is a block of empty text, which the request
parser refuses (`served_message_iff`).

The rest of the request is untouched: every other member of the body is
read by its key (`SameBut`).
-/
import Ginfer.Lib.JsonText
import Ginfer.Serve.AnthropicSchema
import Ginfer.Serve.OpenaiSchema
import Ginfer.Serve.Proofs.ToolCallParser
import Ginfer.Serve.Responses

namespace Ginfer.Serve

open Ginfer.Lib Ginfer.Frontend List
open Ginfer.Frontend.ChatTemplate (ChatRole)

-- ============ names

/-- `new_tool_call_id`. -/
def newToolCallId (draws : Nat → UInt64) (n : Nat) : Bytes :=
  ascii "call_" ++ Responses.hex16 (draws n)

/-- Of the names the output parser accepts, the request parsers accept
those without a dot. -/
theorem isValidFunctionName_iff {name : Bytes} {maximum : Nat}
    (h : validFunctionName name maximum = true) :
    isValidFunctionName maximum name = true ↔ (0x2e : UInt8) ∉ name := by
  unfold validFunctionName at h
  unfold isValidFunctionName
  rw [Bool.and_eq_true] at h ⊢
  obtain ⟨hlength, hall⟩ := h
  rw [all_eq_true] at hall ⊢
  constructor
  · rintro ⟨-, hstrict⟩ hdot
    exact absurd (hstrict _ hdot) (by decide)
  · intro hdot
    refine ⟨hlength, fun c hc => ?_⟩
    have hchar := hall c hc
    rw [Bool.or_eq_true] at hchar
    rcases hchar with hplain | hisdot
    · exact hplain
    · rw [beq_iff_eq] at hisdot
      subst hisdot
      exact absurd hc hdot

-- ============ the JSON texts

/-- What the code relies on of the JSON library: parsing gives objects
ordered by key, and undoes a dump of such. -/
structure JsonText.Lawful (text : JsonText) : Prop where
  parse_canonical : ∀ t v, text.parse t = some v → v.Canonical
  parse_dump : ∀ v : Json, v.Canonical → text.parse (text.dump v) = some v

section

variable {text : JsonText} {draws : Nat → UInt64} {maximum : Nat}
  {call : ToolCall}

/-- The arguments of a parsed call are the dump of an object, which they
parse to. -/
theorem WellMade.arguments_parse (hlawful : text.Lawful)
    (h : WellMade text.api (newToolCallId draws) maximum call) :
    ∃ members, text.parse call.argumentsJson = some (.object members)
      ∧ text.dump (.object members) = call.argumentsJson := by
  obtain ⟨args, harguments, hfrom⟩ := h.arguments
  have hcanonical : (Json.ofMembers args).Canonical := by
    refine Json.ofMembers_canonical fun m hm => ?_
    obtain ⟨raw, hraw⟩ := hfrom m hm
    rw [hraw]
    unfold parameterValue
    cases hparse : text.api.parse raw with
    | none => exact .string raw
    | some v => exact hlawful.parse_canonical raw v hparse
  refine ⟨_, ?_, harguments.symm⟩
  rw [harguments]
  exact hlawful.parse_dump _ hcanonical

theorem WellMade.id_ne_nil
    (h : WellMade text.api (newToolCallId draws) maximum call) :
    ∃ b rest, call.id = b :: rest := by
  obtain ⟨n, hn⟩ := h.id
  exact ⟨_, _, hn⟩

end

-- ============ the meaning

/-- A turn that says what an outcome says. -/
structure Means (turn : ChatTurn) (outcome : GenerationOutcome) : Prop where
  role : turn.role = .assistant
  reasoning : turn.reasoningContent = outcome.reasoning
  content : turn.content = [.text outcome.text (ascii "text")]
    ∨ turn.content = [] ∧ outcome.text = []
  toolCalls : turn.toolCalls = outcome.toolCalls
  toolCallId : turn.toolCallId = []

/-- Two bodies with the same members but for `messages`, which have one
message more in the second. -/
structure Appends (body : Json) (message : Json) (body' : Json) : Prop where
  isObject : body'.isObject = body.isObject
  others : ∀ key, key ≠ ascii "messages" → body'.find? key = body.find? key
  messages : ∃ items, body.find? (ascii "messages") = some (.array items)
    ∧ body'.find? (ascii "messages") = some (.array (items ++ [message]))

section

variable {body message body' : Json}

theorem Appends.present (h : Appends body message body') {key : Bytes}
    (hkey : key ≠ ascii "messages") :
    body'.present? key = body.present? key := by
  unfold Json.present?
  rw [h.others key hkey]

theorem Appends.stringAt (h : Appends body message body') {key : Bytes}
    (hkey : key ≠ ascii "messages") :
    body'.stringAt? key = body.stringAt? key := by
  unfold Json.stringAt?
  rw [h.others key hkey]

variable {key : String}

variable (h : Appends body message body') (hkey : ascii key ≠ ascii "messages")

include h hkey

theorem Appends.getBool (fallback : Bool) :
    getBool body' key fallback = getBool body key fallback := by
  unfold Serve.getBool
  rw [h.present hkey]

theorem Appends.getNumber : getNumber body' key = getNumber body key := by
  unfold Serve.getNumber
  rw [h.present hkey]

theorem Appends.getInt : getInt body' key = getInt body key := by
  unfold Serve.getInt
  rw [h.present hkey]

theorem Appends.getU64 : getU64 body' key = getU64 body key := by
  unfold Serve.getU64
  rw [h.present hkey]

omit h hkey

theorem Appends.requireModel (h : Appends body message body') :
    requireModel body' = requireModel body := by
  unfold Serve.requireModel
  rw [h.stringAt (by decide)]

theorem Appends.thinkingMember (h : Appends body message body')
    (text param : String) :
    thinkingMember body' text param = thinkingMember body text param := by
  unfold Serve.thinkingMember
  rw [h.present (by decide)]

theorem Appends.requireObject (h : Appends body message body') :
    requireObject body' = requireObject body := by
  unfold Serve.requireObject
  rw [h.isObject]

end

/-- Reading every element of a list back. -/
theorem mapM_ok_iff {α β : Type} (f : α → Except ApiError β) (g : β → α)
    (good : β → Prop) (values : List β)
    (hgood : ∀ v ∈ values, good v → f (g v) = .ok v)
    (hbad : ∀ v ∈ values, ¬ good v → ∃ e, f (g v) = .error e) :
    ((∀ v ∈ values, good v) → (values.map g).mapM f = .ok values)
      ∧ ((¬ ∀ v ∈ values, good v) →
        ∃ e, (values.map g).mapM f = .error e) := by
  induction values with
  | nil =>
    refine ⟨fun _ => rfl, fun hno => absurd ?_ hno⟩
    exact forall_mem_nil _
  | cons v rest ih =>
    obtain ⟨ihok, iherror⟩ := ih (fun u hu => hgood u (.tail _ hu))
      (fun u hu => hbad u (.tail _ hu))
    rw [map_cons, mapM_cons]
    constructor
    · intro hall
      rw [hgood v mem_cons_self (hall v mem_cons_self),
        ihok fun u hu => hall u (.tail _ hu)]
      rfl
    · intro hnot
      by_cases hv : good v
      · rw [hgood v mem_cons_self hv]
        obtain ⟨e, he⟩ := iherror fun hall => hnot fun u hu => by
          rcases mem_cons.mp hu with rfl | hin
          · exact hv
          · exact hall u hin
        rw [he]
        exact ⟨e, rfl⟩
      · obtain ⟨e, he⟩ := hbad v (.head _) hv
        rw [he]
        exact ⟨e, rfl⟩

/-- `require_function_name` on an object with a name. -/
theorem requireFunctionName_eq {maximum : Nat} {notString invalid : Bytes}
    {obj : Json} {name : Bytes} (param : String)
    (h : obj.stringAt? (ascii "name") = some name) :
    requireFunctionName maximum notString invalid obj param
      = if isValidFunctionName maximum name then .ok name
        else badRequest invalid (ascii param) := by
  unfold requireFunctionName
  rw [h]

-- ============ Chat Completions

namespace Openai

variable {text : JsonText} {draws : Nat → UInt64}

section

variable {call : ToolCall}

/-- A tool call of a response is read back, unless its name is refused. -/
theorem parse_toolCallJson (hlawful : text.Lawful)
    (h : WellMade text.api (newToolCallId draws) 64 call) :
    parseAssistantToolCall text (toolCallJson call)
      = if isValidFunctionName 64 call.name then .ok call
        else badRequest
        (ascii "function name must match [A-Za-z0-9_-]\x7b1,64\x7d")
        (ascii "messages") := by
  obtain ⟨members, hparse, -⟩ := h.arguments_parse hlawful
  obtain ⟨b, rest, hid⟩ := h.id_ne_nil
  have hobject : (toolCallJson call).isObject = true := rfl
  have hidAt : (toolCallJson call).stringAt? (ascii "id")
      = some (b :: rest) := by
    rw [← hid]
    rfl
  have htype : (toolCallJson call).stringAt? (ascii "type")
      = some (ascii "function") := rfl
  have hfunction : (toolCallJson call).find? (ascii "function")
      = some (.object [(ascii "arguments", .string call.argumentsJson),
        (ascii "name", .string call.name)]) := rfl
  unfold parseAssistantToolCall
  rw [hobject, hidAt, htype, hfunction]
  show (requireFunctionName _ _ >>= _) = _
  unfold requireFunctionName
  rw [requireFunctionName_eq "messages" (show _ = some call.name from rfl)]
  by_cases hname : isValidFunctionName 64 call.name = true
  · rw [if_pos hname, if_pos hname]
    rw [ok_bind, show Json.stringAt? (ascii "arguments") _
      = some call.argumentsJson from rfl]
    dsimp only
    rw [hparse, ← hid]
  · rw [if_neg hname, if_neg hname]
    rfl

variable {outcome : GenerationOutcome}

/-- The members of a served message. -/
structure ServedMembers (outcome : GenerationOutcome) (message : Json) :
    Prop where
  isObject : message.isObject = true
  role : message.stringAt? (ascii "role") = some (ascii "assistant")
  functionCall : message.present? (ascii "function_call") = none
  toolCallId : message.present? (ascii "tool_call_id") = none
  toolCalls : message.present? (ascii "tool_calls")
    = if outcome.toolCalls = [] then none
      else some (.array (outcome.toolCalls.map toolCallJson))
  content : message.present? (ascii "content")
    = if outcome.toolCalls ≠ [] ∧ outcome.text = [] then none
      else some (.string outcome.text)
  reasoning : message.present? (ascii "reasoning_content")
    = if outcome.reasoning = [] then none
      else some (.string outcome.reasoning)

theorem chatMessage_members (outcome : GenerationOutcome) :
    ServedMembers outcome (chatMessage outcome) := by
  obtain ⟨content, reasoning, calls, _, _, _, _, _⟩ := outcome
  cases calls with
  | nil =>
    cases reasoning with
    | nil => exact ⟨rfl, rfl, rfl, rfl, rfl, rfl, rfl⟩
    | cons b rest => exact ⟨rfl, rfl, rfl, rfl, rfl, rfl, rfl⟩
  | cons call calls =>
    cases content with
    | nil =>
      cases reasoning with
      | nil =>
        refine ⟨rfl, rfl, rfl, rfl, rfl, ?_, rfl⟩
        exact (if_pos ⟨cons_ne_nil call calls, rfl⟩).symm
      | cons b rest =>
        refine ⟨rfl, rfl, rfl, rfl, rfl, ?_, rfl⟩
        exact (if_pos ⟨cons_ne_nil call calls, rfl⟩).symm
    | cons c content =>
      cases reasoning with
      | nil =>
        refine ⟨rfl, rfl, rfl, rfl, rfl, ?_, rfl⟩
        exact (if_neg fun h => cons_ne_nil c content h.2).symm
      | cons b rest =>
        refine ⟨rfl, rfl, rfl, rfl, rfl, ?_, rfl⟩
        exact (if_neg fun h => cons_ne_nil c content h.2).symm

/-- The calls of a served message. -/
theorem ServedMembers.parse_toolCalls {message : Json}
    (h : ServedMembers outcome message) (hlawful : text.Lawful)
    (hcalls : ∀ c ∈ outcome.toolCalls,
      WellMade text.api (newToolCallId draws) 64 c) (index : Nat) :
    ((∀ c ∈ outcome.toolCalls, (0x2e : UInt8) ∉ c.name) →
        parseAssistantToolCalls text message index = .ok outcome.toolCalls)
      ∧ ((¬ ∀ c ∈ outcome.toolCalls, (0x2e : UInt8) ∉ c.name) →
        ∃ e, parseAssistantToolCalls text message index = .error e) := by
  have hread := mapM_ok_iff (parseAssistantToolCall text) toolCallJson
    (fun c => (0x2e : UInt8) ∉ c.name) outcome.toolCalls
    (by
      intro c hc hgood
      rw [parse_toolCallJson hlawful (hcalls c hc),
        if_pos ((isValidFunctionName_iff (hcalls c hc).name).mpr hgood)])
    (by
      intro c hc hbad
      rw [parse_toolCallJson hlawful (hcalls c hc), if_neg (fun hno => hbad
          ((isValidFunctionName_iff (hcalls c hc).name).mp hno))]
      exact ⟨_, rfl⟩)
  unfold parseAssistantToolCalls
  rw [h.toolCalls]
  cases hlist : outcome.toolCalls with
  | nil =>
    refine ⟨fun _ => rfl, fun hno => absurd ?_ hno⟩
    exact forall_mem_nil _
  | cons c rest =>
    rw [hlist] at hread
    rw [if_neg (cons_ne_nil c rest)]
    exact hread

/-- A served message is read back to its turn, unless a name is refused. -/
theorem parseMessage_served (hlawful : text.Lawful)
    (hcalls : ∀ c ∈ outcome.toolCalls,
      WellMade text.api (newToolCallId draws) 64 c) (index : Nat) :
    ((∀ c ∈ outcome.toolCalls, (0x2e : UInt8) ∉ c.name) →
        ∃ turn, parseMessage text (chatMessage outcome) index = .ok turn
        ∧ Means turn outcome)
      ∧ ((¬ ∀ c ∈ outcome.toolCalls, (0x2e : UInt8) ∉ c.name) →
        ∃ e, parseMessage text (chatMessage outcome) index = .error e) := by
  have h := chatMessage_members outcome
  obtain ⟨hgood, hbad⟩ := h.parse_toolCalls hlawful hcalls index
  have hmessage : parseMessage text (chatMessage outcome) index
      = parseAssistantMessage text (chatMessage outcome) index := by
    unfold parseMessage
    rw [h.isObject, h.role]
    show (parseMessageRole (ascii "assistant") >>= _) = _
    rw [show parseMessageRole (ascii "assistant")
      = .ok ChatRole.assistant from rfl]
    show (if (Json.present? (ascii "function_call")
      (chatMessage outcome)).isSome then _ else _) = _
    rw [h.functionCall]
    show parseMessageAs text .assistant _ index = _
    unfold parseMessageAs
    rw [h.toolCallId]
    rfl
  have hreasoning : parseReasoningContent (chatMessage outcome) index
      = .ok outcome.reasoning := by
    unfold parseReasoningContent
    rw [h.reasoning]
    by_cases hnil : outcome.reasoning = []
    · rw [if_pos hnil, hnil]
    · rw [if_neg hnil]
  rw [hmessage]
  unfold parseAssistantMessage
  constructor
  · intro hdots
    rw [hgood hdots]
    show ∃ turn, (parseAssistantParts (chatMessage outcome) index
      outcome.toolCalls >>= _) = _ ∧ _
    unfold parseAssistantParts
    rw [h.content]
    by_cases hempty : outcome.toolCalls ≠ [] ∧ outcome.text = []
    · rw [if_pos hempty]
      dsimp only
      rw [if_neg (by simpa using hempty.1)]
      show ∃ turn, (parseReasoningContent _ index >>= _) = _ ∧ _
      rw [hreasoning]
      exact ⟨_, rfl, rfl, rfl, .inr ⟨rfl, hempty.2⟩, rfl, rfl⟩
    · rw [if_neg hempty]
      show ∃ turn, (parseReasoningContent _ index >>= _) = _ ∧ _
      rw [hreasoning]
      exact ⟨_, rfl, rfl, rfl, .inl rfl, rfl, rfl⟩
  · intro hdots
    obtain ⟨e, he⟩ := hbad hdots
    rw [he]
    exact ⟨e, rfl⟩

end

variable {turns : List ChatTurn}

/-- A message after others. -/
theorem parseMessageList_concat {items : List Json} {message : Json}
    {index : Nat} (h : parseMessageList text index items = .ok turns) :
    parseMessageList text index (items ++ [message])
      = (parseMessage text message (index + items.length)).map
        fun turn => turns ++ [turn] := by
  induction items generalizing index turns with
  | nil =>
    cases h
    show (parseMessage text message index >>= _) = _
    rw [length_nil, add_zero]
    cases parseMessage text message index with
    | error e => rfl
    | ok turn => rfl
  | cons item rest ih =>
    obtain ⟨turn, hturn, h⟩ := bind_ok.mp h
    obtain ⟨more, hmore, h⟩ := bind_ok.mp h
    cases h
    rw [cons_append, length_cons]
    show (parseMessage text item index >>= _) = _
    rw [hturn]
    show (parseMessageList text (index + 1) (rest ++ [message]) >>= _) = _
    rw [ih hmore, add_right_comm, ← add_assoc]
    cases parseMessage text message (index + rest.length + 1) with
    | error e => rfl
    | ok last => rfl

section

variable {body message body' : Json} {req : GenerationRequest}
  {defaultMaxTokens : Int}

/-- A request with one message more differs in its messages only. -/
theorem parseChatCompletionRequest_appends (h : Appends body message body')
    (hreq : parseChatCompletionRequest text defaultMaxTokens body = .ok req) :
    parseMessages text (body.find? (ascii "messages")) = .ok req.messages
      ∧ parseChatCompletionRequest text defaultMaxTokens body'
        = (parseMessages text (body'.find? (ascii "messages"))).map
        fun messages => { req with messages := messages } := by
  have hreject : rejectUnsupportedFeatures body'
      = rejectUnsupportedFeatures body := by
    unfold rejectUnsupportedFeatures
    rw [h.present (by decide), h.present (by decide), h.present (by decide)]
  have htools : parseTools text body' = parseTools text body := by
    unfold parseTools
    rw [h.present (by decide)]
  have hchoice : parseToolChoice body' = parseToolChoice body := by
    funext tools
    unfold parseToolChoice
    rw [h.present (by decide)]
  have hstop : parseStop body' = parseStop body := by
    unfold parseStop
    rw [h.present (by decide)]
  have hbias : parseLogitBias body' = parseLogitBias body := by
    unfold parseLogitBias
    rw [h.present (by decide)]
  have husage : parseIncludeUsage body' = parseIncludeUsage body := by
    unfold parseIncludeUsage
    rw [h.others _ (by decide)]
  have hthinking : parseEnableThinking body' = parseEnableThinking body := by
    unfold parseEnableThinking
    rw [h.present (by decide), h.getBool (by decide)]
  have htokens : requestedTokens body' = requestedTokens body := by
    unfold requestedTokens
    rw [h.getInt (by decide), h.getInt (by decide)]
  have hsampling : parseSampling body' = parseSampling body := by
    unfold parseSampling
    rw [h.getNumber (by decide), h.getNumber (by decide),
      h.getInt (by decide), h.getNumber (by decide),
      h.getNumber (by decide), h.getU64 (by decide), hbias,
      h.getInt (by decide)]
  have heffort : parseOpenaiReasoningEffort body'
      = parseOpenaiReasoningEffort body := by
    unfold parseOpenaiReasoningEffort
    rw [h.present (by decide)]
  have hpreserve : parseOpenaiPreserveThinking body'
      = parseOpenaiPreserveThinking body := by
    unfold parseOpenaiPreserveThinking templateThinking
    rw [h.thinkingMember, h.others _ (by decide)]
  unfold parseChatCompletionRequest at hreq ⊢
  rw [h.requireObject, hreject, h.requireModel, htools, hchoice, hstop,
    hsampling, h.getBool (by decide), husage, hthinking, heffort, hpreserve,
    htokens]
  iterate 5 obtain ⟨_, _, hreq⟩ := bind_ok.mp hreq
  obtain ⟨messages, hmessages, hreq⟩ := bind_ok.mp hreq
  iterate 8 obtain ⟨_, _, hreq⟩ := bind_ok.mp hreq
  obtain ⟨⟨_, _⟩, _, hreq⟩ := bind_ok.mp hreq
  cases hreq
  refine ⟨hmessages, ?_⟩
  simp only [*, ok_bind]
  cases parseMessages text (body'.find? (ascii "messages")) with
  | error e => rfl
  | ok messages' => rfl

/-- A served message after the messages of a request. -/
theorem parseChat_served {outcome : GenerationOutcome} (hlawful : text.Lawful)
    (hcalls : ∀ c ∈ outcome.toolCalls,
      WellMade text.api (newToolCallId draws) 64 c)
    (h : Appends body (chatMessage outcome) body')
    (hreq : parseChatCompletionRequest text defaultMaxTokens body = .ok req) :
    (∃ turn, parseChatCompletionRequest text defaultMaxTokens body'
        = .ok { req with messages := req.messages ++ [turn] }
        ∧ Means turn outcome)
      ↔ ∀ c ∈ outcome.toolCalls, (0x2e : UInt8) ∉ c.name := by
  obtain ⟨hmessages, hbody'⟩ := parseChatCompletionRequest_appends h hreq
  obtain ⟨items, hitems, hitems'⟩ := h.messages
  rw [hitems] at hmessages
  have hlist : parseMessageList text 0 items = .ok req.messages := by
    cases items with
    | nil => cases hmessages
    | cons item rest => exact hmessages
  have hlast : parseMessages text (body'.find? (ascii "messages"))
      = (parseMessage text (chatMessage outcome) (0 + items.length)).map
          fun turn => req.messages ++ [turn] := by
    rw [hitems', ← parseMessageList_concat hlist]
    cases items with
    | nil => rfl
    | cons item rest => rfl
  obtain ⟨hgood, hbad⟩ :=
    parseMessage_served hlawful hcalls (0 + items.length)
  rw [hbody', hlast]
  constructor
  · rintro ⟨turn, hok, -⟩
    by_contra hdots
    obtain ⟨e, he⟩ := hbad hdots
    rw [he] at hok
    cases hok
  · intro hdots
    obtain ⟨turn, hturn, hmeans⟩ := hgood hdots
    refine ⟨turn, ?_, hmeans⟩
    rw [hturn]
    rfl

end

end Openai

-- ============ Messages

namespace Anthropic

variable {json : JsonText} {draws : Nat → UInt64}

/-- The assistant message with some content blocks. -/
def assistantMessage (blocks : List Json) : Json :=
  .ofMembers [(ascii "role", .string (ascii "assistant")),
    (ascii "content", .array blocks)]

section

variable {call : ToolCall} {outcome : GenerationOutcome}

/-- The block of a tool call is read back, unless its name is refused. -/
theorem parse_toolUseBlock (hlawful : json.Lawful)
    (h : WellMade json.api (newToolCallId draws) 128 call)
    (acc : AssistantContent) :
    parseAssistantBlock json acc (toolUseBlock json call)
      = if isValidFunctionName 128 call.name then
        .ok { acc with toolCalls := acc.toolCalls ++ [call] }
        else badRequest (ascii "tool name must match [A-Za-z0-9_-]\x7b1,128\x7d")
          (ascii "messages") := by
  obtain ⟨members, hparse, hdump⟩ := h.arguments_parse hlawful
  obtain ⟨b, rest, hid⟩ := h.id_ne_nil
  have htype : requireBlockType (toolUseBlock json call) "messages"
      = .ok (ascii "tool_use") := rfl
  have hidAt : (toolUseBlock json call).stringAt? (ascii "id")
      = some (b :: rest) := by
    rw [← hid]
    rfl
  have hname : (toolUseBlock json call).stringAt? (ascii "name")
      = some call.name := rfl
  have hinput : (toolUseBlock json call).find? (ascii "input")
      = some (.object members) := by
    unfold toolUseBlock
    rw [hparse]
    rfl
  have huse : parseToolUse json (toolUseBlock json call)
      = if isValidFunctionName 128 call.name then .ok call
        else badRequest (ascii "tool name must match [A-Za-z0-9_-]\x7b1,128\x7d")
          (ascii "messages") := by
    unfold parseToolUse
    rw [hidAt, hinput]
    show (requireFunctionName _ _ >>= _) = _
    unfold requireFunctionName
    rw [requireFunctionName_eq "messages" hname]
    by_cases hvalid : isValidFunctionName 128 call.name = true
    · rw [if_pos (show isValidFunctionName maxToolNameLength call.name
        = true from hvalid), if_pos hvalid]
      show Except.ok (ToolCall.mk (b :: rest) call.name
        (json.dump (.object members))) = _
      rw [hdump, ← hid]
    · rw [if_neg (show ¬ isValidFunctionName maxToolNameLength call.name
        = true from hvalid), if_neg hvalid]
      rfl
  unfold parseAssistantBlock
  rw [htype]
  show (parseToolUse json (toolUseBlock json call) >>= _) = _
  rw [huse]
  by_cases hvalid : isValidFunctionName 128 call.name = true
  · rw [if_pos hvalid, if_pos hvalid]
    rfl
  · rw [if_neg hvalid, if_neg hvalid]
    rfl

/-- The blocks of the tool calls. -/
theorem parse_toolUseBlocks (hlawful : json.Lawful) (calls : List ToolCall)
    (hcalls : ∀ c ∈ calls, WellMade json.api (newToolCallId draws) 128 c) :
    ∀ acc : AssistantContent,
    ((∀ c ∈ calls, (0x2e : UInt8) ∉ c.name) →
        (calls.map (toolUseBlock json)).foldlM (parseAssistantBlock json) acc
        = .ok { acc with toolCalls := acc.toolCalls ++ calls })
      ∧ ((¬ ∀ c ∈ calls, (0x2e : UInt8) ∉ c.name) →
        ∃ e, (calls.map (toolUseBlock json)).foldlM
          (parseAssistantBlock json) acc = .error e) := by
  induction calls with
  | nil =>
    intro acc
    refine ⟨fun _ => ?_, fun hno => absurd ?_ hno⟩
    · show Except.ok acc = _
      rw [append_nil]
    · exact forall_mem_nil _
  | cons call rest ih =>
    intro acc
    have hfirst := hcalls call (.head _)
    have hrest := ih fun c hc => hcalls c (.tail _ hc)
    rw [map_cons, foldlM_cons, parse_toolUseBlock hlawful hfirst]
    constructor
    · intro hdots
      rw [if_pos ((isValidFunctionName_iff hfirst.name).mpr
        (hdots call (.head _))), ok_bind,
        (hrest _).1 fun c hc => hdots c (.tail _ hc),
        append_assoc]
      rfl
    · intro hdots
      by_cases hvalid : isValidFunctionName 128 call.name = true
      · rw [if_pos hvalid, ok_bind]
        refine (hrest _).2 fun hall => hdots fun c hc => ?_
        rcases mem_cons.mp hc with rfl | hin
        · exact (isValidFunctionName_iff hfirst.name).mp hvalid
        · exact hall c hin
      · rw [if_neg hvalid]
        exact ⟨_, rfl⟩

/-- What the blocks before the tool calls leave. -/
theorem parse_textBlocks (reasoning content : Bytes) :
    ((if reasoning.isEmpty then []
        else [Json.ofMembers [(ascii "type", .string (ascii "thinking")),
        (ascii "thinking", .string reasoning),
        (ascii "signature", .string [])]])
      ++ (if content.isEmpty then []
        else [Json.ofMembers [(ascii "type", .string (ascii "text")),
        (ascii "text", .string content)]])).foldlM
        (parseAssistantBlock json) {}
      = .ok { text := content, reasoning := reasoning } := by
  cases reasoning with
  | nil =>
    cases content with
    | nil => rfl
    | cons c content => rfl
  | cons r reasoning =>
    cases content with
    | nil => rfl
    | cons c content => rfl

/-- The content of a response is read back to its turn, unless a name is
refused or there is nothing in it. -/
theorem parseAssistantContent_served (hlawful : json.Lawful)
    (hcalls : ∀ c ∈ outcome.toolCalls,
      WellMade json.api (newToolCallId draws) 128 c) :
    (((∀ c ∈ outcome.toolCalls, (0x2e : UInt8) ∉ c.name)
        ∧ ¬ (outcome.reasoning = [] ∧ outcome.text = []
        ∧ outcome.toolCalls = [])) →
        ∃ turn, parseAssistantContent json (messageBlocks json outcome)
        = .ok [turn] ∧ Means turn outcome)
      ∧ (¬ ((∀ c ∈ outcome.toolCalls, (0x2e : UInt8) ∉ c.name)
        ∧ ¬ (outcome.reasoning = [] ∧ outcome.text = []
        ∧ outcome.toolCalls = [])) →
        ∃ e, parseAssistantContent json (messageBlocks json outcome)
        = .error e) := by
  obtain ⟨hgood, hbad⟩ := parse_toolUseBlocks hlawful outcome.toolCalls
    hcalls { text := outcome.text, reasoning := outcome.reasoning }
  by_cases hnothing : outcome.reasoning = [] ∧ outcome.text = []
      ∧ outcome.toolCalls = []
  · -- a block of empty text is all there is
    refine ⟨fun h => absurd hnothing h.2, fun _ => ?_⟩
    have hblocks : messageBlocks json outcome
        = [.ofMembers [(ascii "type", .string (ascii "text")),
          (ascii "text", .string [])]] := by
      unfold messageBlocks
      rw [hnothing.1, hnothing.2.1, hnothing.2.2]
      rfl
    rw [hblocks]
    exact ⟨_, rfl⟩
  · have hblocks : ∃ before, messageBlocks json outcome
          = before ++ outcome.toolCalls.map (toolUseBlock json)
        ∧ before.foldlM (parseAssistantBlock json) {}
          = .ok { text := outcome.text, reasoning := outcome.reasoning } := by
      refine ⟨_, ?_, parse_textBlocks outcome.reasoning outcome.text⟩
      unfold messageBlocks
      dsimp only
      rw [if_neg]
      intro hempty
      refine hnothing ?_
      simp only [List.isEmpty_iff, List.append_eq_nil_iff,
        map_eq_nil_iff] at hempty
      obtain ⟨⟨hr, ht⟩, hc⟩ := hempty
      refine ⟨?_, ?_, hc⟩
      · by_contra hne
        rw [if_neg hne] at hr
        cases hr
      · by_contra hne
        rw [if_neg hne] at ht
        cases ht
    obtain ⟨before, hsplit, hbefore⟩ := hblocks
    unfold parseAssistantContent
    rw [hsplit, foldlM_append, hbefore, ok_bind]
    constructor
    · rintro ⟨hdots, -⟩
      rw [hgood hdots, ok_bind]
      dsimp only
      rw [nil_append, if_neg]
      · refine ⟨_, rfl, rfl, rfl, ?_, rfl, rfl⟩
        by_cases htext : outcome.text = []
        · exact .inr ⟨by rw [htext]; rfl, htext⟩
        · refine .inl ?_
          dsimp only
          rw [if_neg (by simpa using htext)]
      · intro hempty
        refine hnothing ?_
        simp only [Bool.and_eq_true, List.isEmpty_iff] at hempty
        exact ⟨hempty.2, hempty.1.1, hempty.1.2⟩
    · intro hno
      have hdots : ¬ ∀ c ∈ outcome.toolCalls, (0x2e : UInt8) ∉ c.name :=
        fun hall => hno ⟨hall, hnothing⟩
      obtain ⟨e, he⟩ := hbad hdots
      rw [he]
      exact ⟨e, rfl⟩

end

section

variable {items : List Json} {blocks : List Json} {roles : List ChatRole} {index : Nat}

theorem parseRoles_length (h : parseRoles index items = .ok roles) :
    items.length = roles.length := by
  induction items generalizing index roles with
  | nil =>
    cases h
    rfl
  | cons item rest ih =>
    obtain ⟨role, -, h⟩ := bind_ok.mp h
    obtain ⟨more, hmore, h⟩ := bind_ok.mp h
    cases h
    rw [length_cons, length_cons, ih hmore]

theorem parseRoles_concat (h : parseRoles index items = .ok roles) :
    parseRoles index (items ++ [assistantMessage blocks])
      = .ok (roles ++ [.assistant]) := by
  induction items generalizing index roles with
  | nil =>
    cases h
    rfl
  | cons item rest ih =>
    obtain ⟨role, hrole, h⟩ := bind_ok.mp h
    obtain ⟨more, hmore, h⟩ := bind_ok.mp h
    cases h
    rw [cons_append]
    show (parseRole item index >>= _) = _
    rw [hrole, ok_bind]
    show (parseRoles (index + 1) _ >>= _) = _
    rw [ih hmore]
    rfl

/-- An assistant message may follow any conversation. -/
theorem systemPlaced_concat {previous : Option ChatRole}
    (h : systemPlaced previous roles = true) :
    systemPlaced previous (roles ++ [.assistant]) = true := by
  induction roles generalizing previous with
  | nil => rfl
  | cons role rest ih =>
    rw [cons_append]
    unfold systemPlaced at h ⊢
    by_cases hsystem : role = .system
    · rw [if_pos hsystem] at h ⊢
      rw [Bool.and_eq_true, Bool.and_eq_true] at h ⊢
      obtain ⟨⟨hprevious, hnext⟩, hrest⟩ := h
      refine ⟨⟨hprevious, ?_⟩, ih hrest⟩
      cases rest with
      | nil => rfl
      | cons next rest => exact hnext
    · rw [if_neg hsystem] at h ⊢
      exact ih h

theorem parseContents_concat {pairs : List (Json × ChatRole)}
    (h : parseContents json index pairs = .ok turns) :
    parseContents json index (pairs ++ [(assistantMessage blocks, .assistant)])
      = (parseAssistantContent json blocks).map fun more =>
        turns ++ more := by
  induction pairs generalizing index turns with
  | nil =>
    cases h
    show (parseAssistantContent json blocks >>= _) = _
    cases parseAssistantContent json blocks with
    | error e => rfl
    | ok more =>
      show Except.ok (more ++ []) = Except.ok ([] ++ more)
      rw [append_nil, nil_append]
  | cons pair rest ih =>
    obtain ⟨item, role⟩ := pair
    obtain ⟨first, hfirst, h⟩ := bind_ok.mp h
    obtain ⟨more, hmore, h⟩ := bind_ok.mp h
    cases h
    rw [cons_append]
    show (parseContent json role _ index >>= _) = _
    rw [hfirst, ok_bind]
    show (parseContents json (index + 1) _ >>= _) = _
    rw [ih hmore]
    cases parseAssistantContent json blocks with
    | error e => rfl
    | ok last =>
      show Except.ok (first ++ (more ++ last)) = Except.ok (first ++ more ++ last)
      rw [append_assoc]

/-- The messages of a request with one more. -/
theorem parseMessages_concat
    (h : parseMessages json (some (.array items)) = .ok turns) :
    parseMessages json (some (.array (items ++ [assistantMessage blocks])))
      = (parseAssistantContent json blocks).map fun more =>
        turns ++ more := by
  have hlist : parseMessageList json items = .ok turns := by
    cases items with
    | nil => cases h
    | cons item rest => exact h
  have hunfold : parseMessages json
        (some (.array (items ++ [assistantMessage blocks])))
      = parseMessageList json (items ++ [assistantMessage blocks]) := by
    cases items with
    | nil => rfl
    | cons item rest => rfl
  obtain ⟨roles, hroles, hlist⟩ := bind_ok.mp hlist
  rw [hunfold]
  unfold parseMessageList
  rw [parseRoles_concat hroles, ok_bind]
  by_cases hplaced : systemPlaced none roles = true
  · rw [hplaced] at hlist
    rw [systemPlaced_concat hplaced]
    change parseContents json 0 (items.zip roles) = .ok turns at hlist
    show parseContents json 0 (zip (items ++ [_]) (roles ++ [_])) = _
    rw [zip_append (parseRoles_length hroles)]
    exact parseContents_concat hlist
  · rw [if_pos (by simpa using hplaced)] at hlist
    cases hlist

end

section

variable {body message body' : Json} {req : GenerationRequest}
  {defaultMaxTokens : Int}

theorem parseThinking_messages {out out' : GenerationRequest}
    (h : parseThinking body out = .ok out') (messages : List ChatTurn) :
    parseThinking body { out with messages := messages }
      = .ok { out' with messages := messages } := by
  unfold parseThinking at h ⊢
  cases hpresent : body.present? (ascii "thinking") with
  | none =>
    rw [hpresent] at h
    cases h
    rfl
  | some thinking =>
    rw [hpresent] at h
    dsimp only at h ⊢
    cases htype : thinking.stringAt? (ascii "type") with
    | none =>
      rw [htype] at h
      cases h
    | some type =>
      rw [htype] at h
      dsimp only at h ⊢
      by_cases hdisabled : type = ascii "disabled"
      · rw [if_pos hdisabled] at h ⊢
        cases h
        rfl
      · rw [if_neg hdisabled] at h ⊢
        by_cases henabled : type = ascii "enabled" ∨ type = ascii "adaptive"
        · rw [if_pos henabled] at h ⊢
          cases h
          rfl
        · rw [if_neg henabled] at h
          cases h

/-- A request with one message more differs in its messages only. -/
theorem parseMessagesRequest_appends (h : Appends body message body')
    (hreq : parseMessagesRequest json defaultMaxTokens body = .ok req) :
    ∃ system messages,
      parseMessages json (body.find? (ascii "messages")) = .ok messages
      ∧ req.messages = system ++ messages
      ∧ parseMessagesRequest json defaultMaxTokens body'
        = (parseMessages json (body'.find? (ascii "messages"))).map
        fun messages => { req with messages := system ++ messages } := by
  have htools : parseTools json body' = parseTools json body := by
    unfold parseTools
    rw [h.present (by decide)]
  have hchoice : parseToolChoice body' = parseToolChoice body := by
    funext tools
    unfold parseToolChoice
    rw [h.present (by decide)]
  have hsystem : parseSystem body' = parseSystem body := by
    unfold parseSystem
    rw [h.present (by decide)]
  have hstop : parseStopSequences body' = parseStopSequences body := by
    unfold parseStopSequences
    rw [h.present (by decide)]
  have hsampling : parseSampling body' = parseSampling body := by
    unfold parseSampling
    rw [h.getNumber (by decide), h.getNumber (by decide), h.getInt (by decide)]
  have hconfig : parseOutputConfig body' = parseOutputConfig body := by
    unfold parseOutputConfig
    rw [h.present (by decide)]
  have hthinking : parseThinking body' = parseThinking body := by
    funext out
    unfold parseThinking
    rw [h.present (by decide)]
  unfold parseMessagesRequest at hreq ⊢
  rw [h.requireObject, h.requireModel, htools, hchoice, hsystem, hstop,
    hsampling, hconfig, hthinking, h.thinkingMember,
    h.getBool (by decide), h.getInt (by decide)]
  iterate 4 obtain ⟨_, _, hreq⟩ := bind_ok.mp hreq
  obtain ⟨system, hsys, hreq⟩ := bind_ok.mp hreq
  obtain ⟨messages, hmessages, hreq⟩ := bind_ok.mp hreq
  iterate 3 obtain ⟨_, _, hreq⟩ := bind_ok.mp hreq
  obtain ⟨out, hout, hreq⟩ := bind_ok.mp hreq
  iterate 3 obtain ⟨_, _, hreq⟩ := bind_ok.mp hreq
  obtain ⟨⟨_, _⟩, _, hreq⟩ := bind_ok.mp hreq
  cases hreq
  have hkept := fun messages' =>
    parseThinking_messages hout (system ++ messages')
  have hsame := congrArg GenerationRequest.messages
    (Except.ok.inj (hout.symm.trans (hkept messages)))
  refine ⟨system, messages, hmessages, hsame, ?_⟩
  simp only [*, -hout, -hkept, ok_bind]
  cases parseMessages json (body'.find? (ascii "messages")) with
  | error e => rfl
  | ok messages' =>
    show (parseThinking body _ >>= _) = _
    rw [hkept messages']
    rfl

/-- A served message after the messages of a request. -/
theorem parseMessages_served {outcome : GenerationOutcome} (hlawful : json.Lawful)
    (hcalls : ∀ c ∈ outcome.toolCalls,
      WellMade json.api (newToolCallId draws) 128 c)
    (h : Appends body (assistantMessage (messageBlocks json outcome)) body')
    (hreq : parseMessagesRequest json defaultMaxTokens body = .ok req) :
    (∃ turn, parseMessagesRequest json defaultMaxTokens body'
        = .ok { req with messages := req.messages ++ [turn] }
        ∧ Means turn outcome)
      ↔ (∀ c ∈ outcome.toolCalls, (0x2e : UInt8) ∉ c.name)
        ∧ ¬ (outcome.reasoning = [] ∧ outcome.text = []
          ∧ outcome.toolCalls = []) := by
  obtain ⟨system, messages, hmessages, hsystem, hbody'⟩ :=
    parseMessagesRequest_appends h hreq
  obtain ⟨items, hitems, hitems'⟩ := h.messages
  rw [hitems] at hmessages
  obtain ⟨hgood, hbad⟩ := parseAssistantContent_served hlawful hcalls
  rw [hbody', hitems', parseMessages_concat hmessages]
  constructor
  · rintro ⟨turn, hok, -⟩
    by_contra hno
    obtain ⟨e, he⟩ := hbad hno
    rw [he] at hok
    cases hok
  · intro hfine
    obtain ⟨turn, hturn, hmeans⟩ := hgood hfine
    refine ⟨turn, ?_, hmeans⟩
    rw [hturn, hsystem, append_assoc]
    rfl

end

end Anthropic

-- ============ the service

variable {text : JsonText} {draws : Nat → UInt64}

/-- The calls of an outcome are well made. -/
theorem runCollected_made (prepared : PreparedRequest) (g : Generation) :
    ∀ c ∈ (runCollected text.api (newToolCallId draws) prepared g).toolCalls,
      WellMade text.api (newToolCallId draws) prepared.toolNameMaxLength
        c := by
  intro c hc
  change c ∈ if (parseContent text.api (newToolCallId draws) prepared
      g.content).isToolCallResponse then
    (parseContent text.api (newToolCallId draws) prepared
      g.content).toolCalls else [] at hc
  split at hc
  · unfold parseContent at hc
    split at hc
    · exact parseToolCallOutput_made _ _ _ _ c hc
    · cases hc
  · cases hc

/-- The outcome of a generation on an endpoint with a limit on names. -/
def outcomeWithin (text : JsonText) (draws : Nat → UInt64)
    (toolCapable : Bool) (maximum : Nat) (g : Generation) :
    GenerationOutcome :=
  runCollected text.api (newToolCallId draws) ⟨toolCapable, maximum⟩ g

/-- The message of a response, after the messages of any accepted request,
is read back to a turn with what the outcome has: on Chat Completions if and
only if no name has a dot, on Messages if moreover there is something in
the outcome. -/
theorem served_message_iff (text : JsonText) (hlawful : text.Lawful)
    (draws : Nat → UInt64) (toolCapable : Bool) (g : Generation)
    (defaultMaxTokens : Int) :
    (∀ body body' req outcome,
      outcome = outcomeWithin text draws toolCapable 64 g →
      Appends body (Openai.chatMessage outcome) body' →
      Openai.parseChatCompletionRequest text defaultMaxTokens body = .ok req →
      ((∃ turn, Openai.parseChatCompletionRequest text defaultMaxTokens
              body' = .ok { req with messages := req.messages ++ [turn] }
            ∧ Means turn outcome)
        ↔ ∀ c ∈ outcome.toolCalls, (0x2e : UInt8) ∉ c.name))
    ∧ (∀ body body' req outcome,
      outcome = outcomeWithin text draws toolCapable 128 g →
      Appends body (Anthropic.assistantMessage
        (Anthropic.messageBlocks text outcome)) body' →
      Anthropic.parseMessagesRequest text defaultMaxTokens body = .ok req →
      ((∃ turn, Anthropic.parseMessagesRequest text defaultMaxTokens body'
              = .ok { req with messages := req.messages ++ [turn] }
            ∧ Means turn outcome)
        ↔ (∀ c ∈ outcome.toolCalls, (0x2e : UInt8) ∉ c.name)
          ∧ ¬ (outcome.reasoning = [] ∧ outcome.text = []
            ∧ outcome.toolCalls = []))) := by
  constructor
  · rintro body body' req _ rfl hbody hreq
    exact Openai.parseChat_served hlawful
      (runCollected_made ⟨toolCapable, 64⟩ g) hbody hreq
  · rintro body body' req _ rfl hbody hreq
    exact Anthropic.parseMessages_served hlawful
      (runCollected_made ⟨toolCapable, 128⟩ g) hbody hreq

-- ============ two cases

/-- A JSON library with the laws. -/
def jsonText : JsonText := ⟨Json.parse, Json.dump⟩

theorem jsonText_lawful : jsonText.Lawful :=
  ⟨fun _ _ h => (Json.parse_sound h).1, fun _ h => Json.parse_dump h⟩

/-- A generation of some content and nothing else. -/
def contentOnly (content : Bytes) : Generation where
  published := [⟨.content, content⟩]
  content := content
  reasoning := []
  promptTokens := 8
  generatedTokens := 4
  reasoningTokens := 0
  finishReason := .stopToken
  content_published := by simp [textOn]
  reasoning_published := by simp [textOn]

/-- A body of a model and some messages. -/
def sampleBody (messages : List Json) : Json :=
  .ofMembers [(ascii "model", .string (ascii "m")),
    (ascii "messages", .array messages)]

/-- A message of a user. -/
def userMessage : Json :=
  .ofMembers [(ascii "role", .string (ascii "user")),
    (ascii "content", .string (ascii "q"))]

theorem sampleBody_appends (message : Json) :
    Appends (sampleBody [userMessage]) message
      (sampleBody [userMessage, message]) := by
  have hfind : ∀ (items : List Json) (key : Bytes),
      key ≠ ascii "messages" → (sampleBody items).find? key
        = ([(ascii "model", Json.string (ascii "m"))].find?
            fun m => m.1 == key).map Prod.snd := by
    intro items key hkey
    show (List.find? _ [(ascii "messages", _), (ascii "model", _)]).map _ = _
    rw [find?_cons_of_neg (by simpa using fun h => hkey h.symm)]
  refine ⟨rfl, ?_, ⟨[userMessage], rfl, rfl⟩⟩
  intro key hkey
  rw [hfind _ key hkey, hfind _ key hkey]

theorem sampleBody_chat :
    ∃ req, Openai.parseChatCompletionRequest jsonText 16
      (sampleBody [userMessage]) = .ok req :=
  ⟨_, rfl⟩

theorem sampleBody_messages :
    ∃ req, Anthropic.parseMessagesRequest jsonText 16
      (sampleBody [userMessage]) = .ok req :=
  ⟨_, rfl⟩

/-- An answer and no calls is a legal message of both histories. -/
theorem served_message_answer :
    let g := contentOnly (ascii "a")
    let outcome := fun maximum =>
      outcomeWithin jsonText (fun _ => 0) false maximum g
    (∃ req : GenerationRequest, ∃ turn,
        Openai.parseChatCompletionRequest jsonText 16
          (sampleBody [userMessage, Openai.chatMessage (outcome 64)])
        = .ok { req with messages := req.messages ++ [turn] }
      ∧ Means turn (outcome 64))
    ∧ ∃ req : GenerationRequest, ∃ turn,
        Anthropic.parseMessagesRequest jsonText 16
          (sampleBody [userMessage, Anthropic.assistantMessage
            (Anthropic.messageBlocks jsonText (outcome 128))])
        = .ok { req with messages := req.messages ++ [turn] }
      ∧ Means turn (outcome 128) := by
  intro g outcome
  obtain ⟨hchat, hmessages⟩ := served_message_iff jsonText
    jsonText_lawful (fun _ => 0) false g 16
  constructor
  · obtain ⟨req, hreq⟩ := sampleBody_chat
    exact ⟨req, (hchat _ _ req _ rfl (sampleBody_appends _) hreq).mpr
      (forall_mem_nil _)⟩
  · obtain ⟨req, hreq⟩ := sampleBody_messages
    refine ⟨req, (hmessages _ _ req _ rfl (sampleBody_appends _) hreq).mpr
      ⟨forall_mem_nil _, ?_⟩⟩
    exact fun h => cons_ne_nil _ _ h.2.1

/-- A call of a function with a dot in its name. -/
def dottedCall : Generation :=
  contentOnly (ascii "<tool_call><function=a.b></function></tool_call>")

theorem dottedCall_name :
    ((outcomeWithin jsonText (fun _ => 0) true 64
      dottedCall).toolCalls.map ToolCall.name) = [ascii "a.b"] := by
  decide +kernel

/-- The message of a call with a dot in its name is no legal message of a
Chat Completions history, nor that of an empty answer one of a Messages
history. -/
theorem served_message_refused :
    (∃ req, Openai.parseChatCompletionRequest jsonText 16
          (sampleBody [userMessage]) = .ok req
      ∧ ¬ ∃ turn, Openai.parseChatCompletionRequest jsonText 16
          (sampleBody [userMessage, Openai.chatMessage
            (outcomeWithin jsonText (fun _ => 0) true 64 dottedCall)])
        = .ok { req with messages := req.messages ++ [turn] }
      ∧ Means turn (outcomeWithin jsonText (fun _ => 0) true 64 dottedCall))
    ∧ ∃ req, Anthropic.parseMessagesRequest jsonText 16
          (sampleBody [userMessage]) = .ok req
      ∧ ¬ ∃ turn, Anthropic.parseMessagesRequest jsonText 16
          (sampleBody [userMessage, Anthropic.assistantMessage
            (Anthropic.messageBlocks jsonText (outcomeWithin jsonText
              (fun _ => 0) true 128 (contentOnly [])))])
        = .ok { req with messages := req.messages ++ [turn] }
      ∧ Means turn (outcomeWithin jsonText (fun _ => 0) true 128
          (contentOnly [])) := by
  constructor
  · obtain ⟨req, hreq⟩ := sampleBody_chat
    refine ⟨req, hreq, fun hread => ?_⟩
    have hdots := (Openai.parseChat_served jsonText_lawful
      (runCollected_made ⟨true, 64⟩ dottedCall)
      (sampleBody_appends _) hreq).mp hread
    have hname : ascii "a.b" ∈ (outcomeWithin jsonText (fun _ => 0) true
        64 dottedCall).toolCalls.map ToolCall.name := by
      rw [dottedCall_name]
      exact mem_singleton_self _
    obtain ⟨c, hc, hsame⟩ := mem_map.mp hname
    have hdot := hdots c hc
    rw [hsame] at hdot
    exact hdot (by decide)
  · obtain ⟨req, hreq⟩ := sampleBody_messages
    refine ⟨req, hreq, fun hread => ?_⟩
    have hsome := ((Anthropic.parseMessages_served jsonText_lawful
      (runCollected_made ⟨true, 128⟩ (contentOnly []))
      (sampleBody_appends _) hreq).mp hread).2
    exact hsome (by decide +kernel)

end Ginfer.Serve
