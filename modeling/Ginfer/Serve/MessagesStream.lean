/-
The Anthropic message stream
(serve/http_server.cpp, `HttpServer::handle_messages`, streaming branch).

Two callbacks and a tail share two open flags and an index counter. A
content block is opened by the first delta of its kind, and closed by the
other kind's first delta or by the tail — but only `on_content` closes what
is open of the other kind.

The events are the values behind the server-sent texts; a write that fails
throws, and is not modelled. `Block` and `MessageProtocol` at the end say
what a client may rely on: the events of a message are those of its blocks,
one after the other.
-/
import Ginfer.Serve.GenerationService

namespace Ginfer.Serve.Messages

open Ginfer.Lib Ginfer.Frontend

-- ============ the events

/-- The `content_block` of a `content_block_start`. -/
inductive ContentBlock where
  | thinking
  | text
  | toolUse (id name : Bytes)

/-- The `delta` of a `content_block_delta`. -/
inductive BlockDelta where
  | thinking (thinking : Bytes)
  | text (text : Bytes)
  | inputJson (partialJson : Bytes)

/-- A server-sent event. -/
inductive MessageEvent where
  | messageStart (id model : Bytes) (inputTokens : Nat)
  | contentBlockStart (index : Int) (block : ContentBlock)
  | contentBlockDelta (index : Int) (delta : BlockDelta)
  | contentBlockStop (index : Int)
  | messageDelta (stopReason : String) (outputTokens : Nat)
  | messageStop

/-- `messages_stop_reason`. -/
def messagesStopReason (reason : FinishReason) (hasToolCalls : Bool) :
    String :=
  if hasToolCalls then "tool_use"
  else
    match reason with
    | .outputLimit | .contextCapacity => "max_tokens"
    | .none | .stopToken | .stopString | .cancelled => "end_turn"

-- ============ the handler

/-- The locals of the content provider, and what it has written. -/
structure MessageStream where
  nextIndex : Int
  thinkingOpen : Bool
  thinkingIndex : Int
  textOpen : Bool
  textIndex : Int
  written : List MessageEvent

namespace MessageStream

/-- After `message_start`. -/
def start (id model : Bytes) (inputTokens : Nat) : MessageStream where
  nextIndex := 0
  thinkingOpen := false
  thinkingIndex := -1
  textOpen := false
  textIndex := -1
  written := [.messageStart id model inputTokens]

variable (s : MessageStream)

/-- `write_stream_item`. -/
def write (event : MessageEvent) : MessageStream :=
  { s with written := s.written ++ [event] }

/-- The thinking block is opened. -/
def openThinking : MessageStream :=
  write { s with
    thinkingIndex := s.nextIndex
    nextIndex := s.nextIndex + 1
    thinkingOpen := true } (.contentBlockStart s.nextIndex .thinking)

/-- The thinking block is closed, if it is open. -/
def closeThinking : MessageStream :=
  if s.thinkingOpen then
    { s.write (.contentBlockStop s.thinkingIndex) with thinkingOpen := false }
  else s

/-- The text block is opened. -/
def openText : MessageStream :=
  write { s with
    textIndex := s.nextIndex
    nextIndex := s.nextIndex + 1
    textOpen := true } (.contentBlockStart s.nextIndex .text)

/-- The text block is closed, if it is open. -/
def closeText : MessageStream :=
  if s.textOpen then
    { s.write (.contentBlockStop s.textIndex) with textOpen := false }
  else s

/-- `on_reasoning`. -/
def onReasoning (text : Bytes) : MessageStream :=
  let s := if s.thinkingOpen then s else s.openThinking
  s.write (.contentBlockDelta s.thinkingIndex (.thinking text))

/-- `on_content`. -/
def onContent (text : Bytes) : MessageStream :=
  let s := s.closeThinking
  let s := if s.textOpen then s else s.openText
  s.write (.contentBlockDelta s.textIndex (.text text))

/-- A call of the sink. -/
def call : SinkCall → MessageStream
  | .onReasoning text => s.onReasoning text
  | .onContent text => s.onContent text

/-- A block that is written at once. -/
def wholeBlock (block : ContentBlock) (deltas : List BlockDelta) :
    MessageStream :=
  { s with
    nextIndex := s.nextIndex + 1
    written := s.written ++ (.contentBlockStart s.nextIndex block
      :: (deltas.map (.contentBlockDelta s.nextIndex)
        ++ [.contentBlockStop s.nextIndex])) }

/-- The block of a tool call. -/
def toolBlock (call : ToolCall) : MessageStream :=
  s.wholeBlock (.toolUse call.id call.name) [.inputJson call.argumentsJson]

/-- What follows the generation: `remaining` is the content that was not
streamed. -/
def tail (toolCapable : Bool) (outcome : GenerationOutcome)
    (remaining : Bytes) : MessageStream :=
  let s := s.closeThinking.closeText
  let s :=
    if toolCapable then
      let s :=
        if remaining.isEmpty then s
        else s.wholeBlock .text [.text remaining]
      outcome.toolCalls.foldl toolBlock s
    else s
  let s := if s.nextIndex = 0 then s.wholeBlock .text [] else s
  let s := s.write (.messageDelta
    (messagesStopReason outcome.finishReason (!outcome.toolCalls.isEmpty))
    outcome.completionTokens)
  s.write .messageStop

end MessageStream

/-- `unstreamed_content`. -/
def unstreamedContent (outcome : GenerationOutcome) : Except Exception Bytes :=
  if outcome.text.length < outcome.streamedContentBytes then
    .error (.logicError "streamed content exceeds terminal content")
  else .ok (outcome.text.drop outcome.streamedContentBytes)

variable {J : Type}

/-- The streaming branch of `handle_messages`: what is written, and the
outcome it reports. -/
def handleMessages (json : JsonApi J) (newId : Nat → Bytes)
    (prepared : PreparedRequest) (id model : Bytes) (inputTokens : Nat)
    (g : Generation) :
    Except Exception (List MessageEvent × GenerationOutcome) := do
  let (calls, outcome) ← runStreamed json newId prepared g
  let s := calls.foldl MessageStream.call (.start id model inputTokens)
  let remaining ← unstreamedContent outcome
  .ok ((s.tail prepared.toolCapable outcome remaining).written, outcome)

-- ============ the protocol

/-- A content block with the deltas of its type. -/
inductive Block where
  | thinking (deltas : List Bytes)
  | text (deltas : List Bytes)
  | toolUse (id name : Bytes) (deltas : List Bytes)

namespace Block

def content : Block → ContentBlock
  | thinking _ => .thinking
  | text _ => .text
  | toolUse id name _ => .toolUse id name

def deltas : Block → List BlockDelta
  | thinking ds => ds.map .thinking
  | text ds => ds.map .text
  | toolUse _ _ ds => ds.map .inputJson

/-- The events of a block: its start, its deltas, its stop. -/
def events (b : Block) (index : Nat) : List MessageEvent :=
  .contentBlockStart index b.content
    :: (b.deltas.map (.contentBlockDelta index) ++ [.contentBlockStop index])

/-- What it adds to the reasoning. -/
def thinkingText : Block → Bytes
  | thinking ds => ds.flatten
  | _ => []

/-- What it adds to the text. -/
def contentText : Block → Bytes
  | text ds => ds.flatten
  | _ => []

/-- Its tool call. -/
def toolCall : Block → Option ToolCall
  | toolUse id name ds => some ⟨id, name, ds.flatten⟩
  | _ => none

end Block

/-- The blocks one after the other, numbered from `index` on. -/
def blockEvents : Nat → List Block → List MessageEvent
  | _, [] => []
  | index, b :: rest => b.events index ++ blockEvents (index + 1) rest

/-- The events of a message, and the data in them. -/
def MessageProtocol (events : List MessageEvent)
    (outcome : GenerationOutcome) : Prop :=
  ∃ id model inputTokens blocks,
    events = .messageStart id model inputTokens :: (blockEvents 0 blocks
      ++ [.messageDelta (messagesStopReason outcome.finishReason
            (!outcome.toolCalls.isEmpty)) outcome.completionTokens,
          .messageStop])
      ∧ blocks.flatMap Block.thinkingText = outcome.reasoning
      ∧ blocks.flatMap Block.contentText = outcome.text
      ∧ blocks.filterMap Block.toolCall = outcome.toolCalls

end Ginfer.Serve.Messages
