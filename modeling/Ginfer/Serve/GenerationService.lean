/-
The service between the engine and the protocols
(serve/generation_service.cpp).

`run` waits for a generation. What the engine publishes on the way goes
through a `ServiceOutputSink`: reasoning as it comes, content through the
tool filter when the request may call tools, and nothing that is empty.
When the generation is over the content is parsed for tool calls and the
sink is told what it was, so that it can release or drop what it held.

The callbacks of a `StreamSink` are modelled by the list of the calls it
receives; both are set in every caller that streams. What the engine gives
a waiter is a `Generation`: the result repeats on each channel what was
published there (Executor/Proofs/Stream.lean). Its timings are left out,
and a counter of bytes does not wrap.
-/
import Ginfer.Frontend.OutputSession
import Ginfer.Serve.ToolCallParser

namespace Ginfer.Serve

open Ginfer.Lib Ginfer.Frontend

-- ============ the generation

/-- What the engine gives the waiter of a request. -/
structure Generation where
  published : List OutputDelta
  content : Bytes
  reasoning : Bytes
  promptTokens : Nat
  generatedTokens : Nat
  reasoningTokens : Nat
  finishReason : FinishReason
  content_published : content = textOn .content published
  reasoning_published : reasoning = textOn .reasoning published

/-- `GenerationOutcome`. -/
structure GenerationOutcome where
  text : Bytes
  reasoning : Bytes
  toolCalls : List ToolCall
  promptTokens : Nat
  completionTokens : Nat
  reasoningTokens : Nat
  streamedContentBytes : Nat
  finishReason : FinishReason

/-- What `run` reads of a `PreparedRequest`. -/
structure PreparedRequest where
  toolCapable : Bool
  toolNameMaxLength : Nat

-- ============ the sink

/-- A call of a `StreamSink`. -/
inductive SinkCall where
  | onReasoning (text : Bytes)
  | onContent (text : Bytes)

/-- `ServiceOutputSink`. -/
structure ServiceOutputSink where
  filterToolCalls : Bool
  toolFilter : ToolCallStreamFilter
  contentBytes : Nat

namespace ServiceOutputSink

/-- A new sink. -/
def initial (filterToolCalls : Bool) : ServiceOutputSink :=
  ⟨filterToolCalls, .initial, 0⟩

variable (s : ServiceOutputSink)

/-- `publish_content`. -/
def publishContent (text : Bytes) : List SinkCall × ServiceOutputSink :=
  if text.isEmpty then ([], s)
  else
    ([.onContent text], { s with contentBytes := s.contentBytes + text.length })

/-- `publish`. -/
def publish (delta : OutputDelta) :
    Except Exception (List SinkCall × ServiceOutputSink) :=
  if delta.text.isEmpty then .ok ([], s)
  else
    match delta.channel with
    | .reasoning => .ok ([.onReasoning delta.text], s)
    | .content =>
      if s.filterToolCalls then do
        let (visible, toolFilter) ← s.toolFilter.feed delta.text
        .ok (publishContent { s with toolFilter := toolFilter } visible)
      else .ok (s.publishContent delta.text)

/-- Delta after delta, as the engine publishes them. -/
def publishAll (s : ServiceOutputSink) :
    List OutputDelta → Except Exception (List SinkCall × ServiceOutputSink)
  | [] => .ok ([], s)
  | delta :: rest => do
    let (calls, s) ← s.publish delta
    let (more, s) ← publishAll s rest
    .ok (calls ++ more, s)

/-- `finish`; it returns the bytes of content shown. -/
def finish (isToolCallResponse : Bool) : Except Exception (List SinkCall × Nat) :=
  if s.filterToolCalls then do
    let (tail, toolFilter) ← s.toolFilter.finish isToolCallResponse
    let (calls, s) :=
      publishContent { s with toolFilter := toolFilter } tail
    .ok (calls, s.contentBytes)
  else .ok ([], s.contentBytes)

end ServiceOutputSink

-- ============ the run

variable {J : Type}

/-- What the outcome says of the content: parsed for a request that may
call tools. -/
def parseContent (json : JsonApi J) (newId : Nat → Bytes)
    (prepared : PreparedRequest) (content : Bytes) : ParsedToolCallOutput :=
  if prepared.toolCapable then
    parseToolCallOutput json newId prepared.toolNameMaxLength content
  else ⟨false, content, []⟩

/-- The outcome of a generation, but for what was streamed. -/
def GenerationOutcome.ofGeneration (g : Generation)
    (parsed : ParsedToolCallOutput) (streamedContentBytes : Nat) :
    GenerationOutcome where
  text := parsed.content
  reasoning := g.reasoning
  toolCalls := if parsed.isToolCallResponse then parsed.toolCalls else []
  promptTokens := g.promptTokens
  completionTokens := g.generatedTokens
  reasoningTokens := g.reasoningTokens
  streamedContentBytes := streamedContentBytes
  finishReason := g.finishReason

/-- `GenerationService::run` without a sink. -/
def runCollected (json : JsonApi J) (newId : Nat → Bytes)
    (prepared : PreparedRequest) (g : Generation) : GenerationOutcome :=
  .ofGeneration g (parseContent json newId prepared g.content) 0

/-- `GenerationService::run` with a sink: the calls it received, and the
outcome. -/
def runStreamed (json : JsonApi J) (newId : Nat → Bytes)
    (prepared : PreparedRequest) (g : Generation) :
    Except Exception (List SinkCall × GenerationOutcome) := do
  let (calls, sink) ←
    (ServiceOutputSink.initial prepared.toolCapable).publishAll g.published
  let parsed := parseContent json newId prepared g.content
  let (tail, streamed) ← sink.finish parsed.isToolCallResponse
  .ok (calls ++ tail, .ofGeneration g parsed streamed)

end Ginfer.Serve
