/-
The Responses event stream
(serve/responses_schema.cpp, `ResponsesEventStream`).

The encoder gives each event the next sequence number, and each output item
the next output index when it opens. Content closes the reasoning item;
reasoning closes nothing. `finish` closes what is open, adds the text that
was not streamed and the function calls, and lays the items out again with
`build_response`.

What a call returns is written before the next call, so the events are
collected in `written`, and a run is `start`, the deltas, `finish` and
`terminal`. A sequence number does not wrap; `failed` is not modelled.

`StreamAgrees` at the end says what a client may rely on.
-/
import Ginfer.Serve.Responses

namespace Ginfer.Serve.Responses

open Ginfer.Lib Ginfer.Frontend

-- ============ the events

/-- The type of a content part. -/
inductive PartType where
  | reasoningText | outputText

/-- An event, but for its sequence number. -/
inductive EventBody (C : Type) where
  | created (response : Response C)
  | inProgress (response : Response C)
  | outputItemAdded (outputIndex : Int) (item : OutputItem)
  | contentPartAdded (itemId : Bytes) (outputIndex : Int)
      (contentIndex : Nat) (type : PartType) (text : Bytes)
  | textDelta (type : PartType) (itemId : Bytes) (outputIndex : Int)
      (contentIndex : Nat) (delta : Bytes)
  | textDone (type : PartType) (itemId : Bytes) (outputIndex : Int)
      (contentIndex : Nat) (text : Bytes)
  | contentPartDone (itemId : Bytes) (outputIndex : Int)
      (contentIndex : Nat) (type : PartType) (text : Bytes)
  | functionCallArgumentsDelta (itemId : Bytes) (outputIndex : Int)
      (delta : Bytes)
  | functionCallArgumentsDone (itemId : Bytes) (outputIndex : Int)
      (name arguments : Bytes)
  | outputItemDone (outputIndex : Int) (item : OutputItem)
  | terminal (type : String) (response : Response C)

/-- An event. -/
structure Event (C : Type) where
  sequenceNumber : Nat
  body : EventBody C

-- ============ the encoder

/-- `ResponsesEventStream::Impl`, with the number of draws made and the
events written. -/
structure EventStream (C : Type) where
  common : C
  sequence : Nat := 0
  nextOutputIndex : Int := 0
  reasoningIndex : Int := -1
  messageIndex : Int := -1
  started : Bool := false
  reasoningStarted : Bool := false
  reasoningDone : Bool := false
  messageStarted : Bool := false
  messageDone : Bool := false
  finishBuilt : Bool := false
  terminalEmitted : Bool := false
  reasoningText : Bytes := []
  contentText : Bytes := []
  ids : ItemIds := {}
  drawn : Nat := 0
  written : List (Event C) := []

namespace EventStream

variable {C : Type}

/-- `event`, and the write of it. -/
def event (s : EventStream C) (body : EventBody C) : EventStream C :=
  { s with
    sequence := s.sequence + 1
    written := s.written ++ [⟨s.sequence, body⟩] }

/-- Events one after the other. -/
def events (s : EventStream C) (bodies : List (EventBody C)) : EventStream C :=
  bodies.foldl event s

variable (draws : Nat → UInt64)

/-- `ensure_reasoning`. -/
def ensureReasoning (s : EventStream C) : EventStream C :=
  if s.reasoningStarted then s
  else
    let id := randomId draws s.drawn "rs"
    events { s with
      reasoningStarted := true
      ids := { s.ids with reasoning := id }
      drawn := s.drawn + 2
      reasoningIndex := s.nextOutputIndex
      nextOutputIndex := s.nextOutputIndex + 1 }
      [.outputItemAdded s.nextOutputIndex (.reasoning id .inProgress []),
        .contentPartAdded id s.nextOutputIndex 0 .reasoningText []]

/-- `close_reasoning`. -/
def closeReasoning (s : EventStream C) (finalText : Bytes)
    (status : Status := .completed) : EventStream C :=
  if !s.reasoningStarted || s.reasoningDone then s
  else
    events { s with reasoningDone := true, reasoningText := finalText }
      [.textDone .reasoningText s.ids.reasoning s.reasoningIndex 0 finalText,
        .contentPartDone s.ids.reasoning s.reasoningIndex 0 .reasoningText
          finalText,
        .outputItemDone s.reasoningIndex
          (.reasoning s.ids.reasoning status [finalText])]

/-- `ensure_message`. -/
def ensureMessage (s : EventStream C) : EventStream C :=
  if s.messageStarted then s
  else
    let id := randomId draws s.drawn "msg"
    events { s with
      messageStarted := true
      ids := { s.ids with message := id }
      drawn := s.drawn + 2
      messageIndex := s.nextOutputIndex
      nextOutputIndex := s.nextOutputIndex + 1 }
      [.outputItemAdded s.nextOutputIndex (.message id .inProgress []),
        .contentPartAdded id s.nextOutputIndex 0 .outputText []]

/-- `close_message`. -/
def closeMessage (s : EventStream C) (finalText : Bytes)
    (status : Status := .completed) : EventStream C :=
  if !s.messageStarted || s.messageDone then s
  else
    events { s with messageDone := true, contentText := finalText }
      [.textDone .outputText s.ids.message s.messageIndex 0 finalText,
        .contentPartDone s.ids.message s.messageIndex 0 .outputText finalText,
        .outputItemDone s.messageIndex
          (.message s.ids.message status [finalText])]

-- ============ the calls

/-- `start`. -/
def start (s : EventStream C) : Except Exception (EventStream C) :=
  if s.started then
    .error (.logicError "Responses event stream already started")
  else
    let response := inProgressResponse s.common
    .ok (events { s with started := true }
      [.created response, .inProgress response])

/-- `reasoning_delta`. -/
def reasoningDelta (s : EventStream C) (text : Bytes) :
    Except Exception (EventStream C) :=
  if !s.started || s.finishBuilt then
    .error (.logicError "invalid reasoning delta event state")
  else if text.isEmpty then .ok s
  else
    let s := s.ensureReasoning draws
    let s := { s with reasoningText := s.reasoningText ++ text }
    .ok (s.event (.textDelta .reasoningText s.ids.reasoning s.reasoningIndex
      0 text))

/-- `content_delta`. -/
def contentDelta (s : EventStream C) (text : Bytes) :
    Except Exception (EventStream C) :=
  if !s.started || s.finishBuilt then
    .error (.logicError "invalid content delta event state")
  else if text.isEmpty then .ok s
  else
    let s := s.closeReasoning s.reasoningText
    let s := s.ensureMessage draws
    let s := { s with contentText := s.contentText ++ text }
    .ok (s.event (.textDelta .outputText s.ids.message s.messageIndex 0 text))

/-- A call of the sink. -/
def delta (s : EventStream C) : SinkCall → Except Exception (EventStream C)
  | .onReasoning text => s.reasoningDelta draws text
  | .onContent text => s.contentDelta draws text

/-- The reasoning of `finish`: shown if it was not, and closed. -/
def finishReasoning (s : EventStream C) (outcome : GenerationOutcome) :
    EventStream C :=
  let s :=
    if !outcome.reasoning.isEmpty && !s.reasoningStarted then
      let s := s.ensureReasoning draws
      let s := { s with reasoningText := outcome.reasoning }
      s.event (.textDelta .reasoningText s.ids.reasoning s.reasoningIndex 0
        outcome.reasoning)
    else s
  s.closeReasoning outcome.reasoning (reasoningStatus outcome)

/-- The text of the message that was not streamed. -/
def finishText (s : EventStream C) (text : Bytes) :
    Except Exception (EventStream C) :=
  if text = s.contentText then .ok s
  else if !s.contentText.isPrefixOf text then
    .error (.logicError "streamed content does not match terminal content")
  else
    let suffix := text.drop s.contentText.length
    if suffix.isEmpty then .ok s
    else
      let s := { s with contentText := s.contentText ++ suffix }
      .ok (s.event (.textDelta .outputText s.ids.message s.messageIndex 0 suffix))

/-- The message of `finish`: the rest of its text, and its end. -/
def finishMessage (s : EventStream C) (outcome : GenerationOutcome) :
    Except Exception (EventStream C) :=
  if !outcome.text.isEmpty || outcome.toolCalls.isEmpty then do
    let s ← (s.ensureMessage draws).finishText outcome.text
    .ok (s.closeMessage outcome.text (itemStatus outcome.finishReason))
  else .ok s

/-- A function call of `finish`. -/
def finishCall (s : EventStream C) (call : ToolCall) : EventStream C :=
  let id := randomId draws s.drawn "fc"
  let index := s.nextOutputIndex
  events { s with
    ids := { s.ids with functionCalls := s.ids.functionCalls ++ [id] }
    drawn := s.drawn + 2
    nextOutputIndex := s.nextOutputIndex + 1 }
    (.outputItemAdded index (.functionCall id .inProgress call.id call.name [])
      :: ((if call.argumentsJson.isEmpty then []
            else [.functionCallArgumentsDelta id index call.argumentsJson])
        ++ [.functionCallArgumentsDone id index call.name call.argumentsJson,
          .outputItemDone index (.functionCall id .completed call.id
            call.name call.argumentsJson)]))

/-- `finish`: the events before the terminal one, and the response. -/
def finish (s : EventStream C) (now : Int) (outcome : GenerationOutcome) :
    Except Exception (BuiltResponse C × EventStream C) :=
  if !s.started || s.finishBuilt then
    .error (.logicError "invalid Responses stream finish state")
  else do
    let s := { s with finishBuilt := true }
    let s ← (s.finishReasoning draws outcome).finishMessage draws outcome
    let s := outcome.toolCalls.foldl (finishCall draws) s
    .ok (buildResponse draws s.drawn s.common now outcome s.ids, s)

/-- The type of the terminal event. -/
def terminalType : Status → String
  | .completed => "response.completed"
  | .incomplete => "response.incomplete"
  | .cancelled => "response.cancelled"
  | .inProgress => "response.failed"

/-- `terminal`. -/
def terminal (s : EventStream C) (response : BuiltResponse C) :
    Except Exception (EventStream C) :=
  if !s.finishBuilt || s.terminalEmitted then
    .error (.logicError "invalid Responses terminal event state")
  else
    .ok (event { s with terminalEmitted := true }
      (.terminal (terminalType response.body.status) response.body))

end EventStream

/-- A whole stream: the events, and the response of the last one. -/
def streamResponse {C : Type} (draws : Nat → UInt64) (common : C)
    (now : Int) (deltas : List SinkCall) (outcome : GenerationOutcome) :
    Except Exception (List (Event C) × Response C) := do
  let s ← EventStream.start { common := common }
  let s ← deltas.foldlM (EventStream.delta draws) s
  let (response, s) ← s.finish draws now outcome
  let s ← s.terminal response
  .ok (s.written, response.body)

-- ============ the agreement

namespace OutputItem

def id : OutputItem → Bytes
  | reasoning id _ _ => id
  | message id _ _ => id
  | functionCall id _ _ _ _ => id

/-- What the deltas of an item add up to. -/
def text : OutputItem → Bytes
  | reasoning _ _ content => content.flatten
  | message _ _ content => content.flatten
  | functionCall _ _ _ _ arguments => arguments

end OutputItem

namespace EventBody

variable {C : Type}

/-- The `output_index` of an event about an item. -/
def outputIndex : EventBody C → Option Int
  | created _ | inProgress _ | terminal _ _ => none
  | outputItemAdded i _ | outputItemDone i _ => some i
  | contentPartAdded _ i _ _ _ | contentPartDone _ i _ _ _ => some i
  | textDelta _ _ i _ _ | textDone _ _ i _ _ => some i
  | functionCallArgumentsDelta _ i _ => some i
  | functionCallArgumentsDone _ i _ _ => some i

/-- The id of the item an event is about. -/
def itemId : EventBody C → Option Bytes
  | created _ | inProgress _ | terminal _ _ => none
  | outputItemAdded _ item | outputItemDone _ item => some item.id
  | contentPartAdded id _ _ _ _ | contentPartDone id _ _ _ _ => some id
  | textDelta _ id _ _ _ | textDone _ id _ _ _ => some id
  | functionCallArgumentsDelta id _ _ => some id
  | functionCallArgumentsDone id _ _ _ => some id

/-- An item is added, or done. -/
def atEdge : EventBody C → Bool
  | outputItemAdded _ _ | outputItemDone _ _ => true
  | _ => false

/-- What a delta adds. -/
def deltaText : EventBody C → Bytes
  | textDelta _ _ _ _ delta => delta
  | functionCallArgumentsDelta _ _ delta => delta
  | _ => []

/-- The text a done event gives, of a part or of the arguments. -/
def doneText : EventBody C → Option Bytes
  | textDone _ _ _ _ text => some text
  | contentPartDone _ _ _ _ text => some text
  | functionCallArgumentsDone _ _ _ arguments => some arguments
  | _ => none

end EventBody

/-- The events of one item: it is added once, then come its deltas, then it
is done, once; they carry its id and its text. -/
def ItemStreamed {C : Type} (index : Nat) (item : OutputItem)
    (bodies : List (EventBody C)) : Prop :=
  ∃ added body, bodies = .outputItemAdded index added
      :: (body ++ [.outputItemDone index item])
    ∧ added.id = item.id
    ∧ (∀ e ∈ body, e.atEdge = false ∧ e.itemId = some item.id)
    ∧ body.flatMap EventBody.deltaText = item.text
    ∧ ∀ e ∈ body, ∀ text, e.doneText = some text → text = item.text

/-- The events agree with the response of the last one. -/
structure StreamAgrees {C : Type} (events : List (Event C))
    (response : Response C) : Prop where
  numbered : events.map Event.sequenceNumber = List.range events.length
  last : ∃ before n type, events = before ++ [⟨n, .terminal type response⟩]
  placed : ∀ e ∈ events, ∀ i, e.body.outputIndex = some i →
    ∃ n : Nat, i = n ∧ n < response.output.length
  items : ∀ (n : Nat) (item : OutputItem), response.output[n]? = some item →
    ItemStreamed n item
      ((events.map Event.body).filter fun e => e.outputIndex = some (n : Int))

end Ginfer.Serve.Responses
