/-
The event stream agrees with the response, for one order of deltas.

`Streamed` is the encoder after some reasoning and then some content: one
item is open, the others are closed, and the events are those of the items
in order (`Trace`). `finish` closes them and adds the calls, and the items
of `build_response` are the ones announced (`finish_closed`).

A reasoning delta after content breaks the agreement, in one of two ways.
If no reasoning came before the content, the message has taken index 0,
which `build_response` gives the reasoning. If some did, the reasoning item
is done, and the delta comes after its end. So the stream agrees with the
response exactly when no reasoning follows content
(`responses_stream_iff`).
-/
import Ginfer.Serve.ResponsesStream
import Ginfer.Serve.Proofs.GenerationService

namespace Ginfer.Serve.Responses

open Ginfer.Lib Ginfer.Frontend EventStream List EventStream
open Bool hiding or_false not_or

-- ============ numbering

variable {C : Type}

/-- The events are numbered from zero on. -/
def Numbered (written : List (Event C)) (sequence : Nat) : Prop :=
  written.map Event.sequenceNumber = List.range written.length
    ∧ sequence = written.length

/-- Only the events and their count change. -/
theorem events_eq (s : EventStream C) (bodies : List (EventBody C)) :
    ∃ more, s.events bodies = { s with
        sequence := s.sequence + bodies.length
        written := s.written ++ more }
      ∧ more.map Event.body = bodies
      ∧ (Numbered s.written s.sequence →
          Numbered (s.written ++ more) (s.sequence + bodies.length)) := by
  induction bodies generalizing s with
  | nil =>
    refine ⟨[], ?_, rfl, ?_⟩
    · show s = _
      rw [append_nil]
      rfl
    · intro h
      rw [append_nil]
      exact h
  | cons body rest ih =>
    obtain ⟨more, heq, hbodies, hnumbered⟩ := ih (s.event body)
    refine ⟨⟨s.sequence, body⟩ :: more, ?_, ?_, ?_⟩
    · show (s.event body).events rest = _
      rw [heq]
      simp [event, add_assoc, add_comm]
    · rw [map_cons, hbodies]
    · intro h
      have hone : Numbered (s.event body).written
          (s.event body).sequence := by
        obtain ⟨hmap, hcount⟩ := h
        refine ⟨?_, ?_⟩
        · show (s.written ++ [(⟨s.sequence, body⟩ : Event C)]).map _
            = range (s.written ++ [_]).length
          rw [map_append, hmap, length_append, hcount]
          exact range_succ.symm
        · show s.sequence + 1 = (s.written ++ [_]).length
          rw [length_append, hcount]
          rfl
      have hmore := hnumbered hone
      rw [show (s.event body).written ++ more
          = s.written ++ ⟨s.sequence, body⟩ :: more from by
            simp [event],
        show (s.event body).sequence + rest.length
          = s.sequence + (body :: rest).length from by
            simp [event]; omega] at hmore
      exact hmore

@[simp] theorem events_bodies (s : EventStream C) (bodies : List (EventBody C)) :
    (s.events bodies).written.map Event.body
      = s.written.map Event.body ++ bodies := by
  obtain ⟨more, heq, hbodies, -⟩ := events_eq s bodies
  rw [heq]
  show (s.written ++ more).map Event.body = _
  rw [map_append, hbodies]

variable {s : EventStream C}

theorem events_numbered
    (h : Numbered s.written s.sequence) (bodies : List (EventBody C)) :
    Numbered (s.events bodies).written (s.events bodies).sequence := by
  obtain ⟨more, heq, -, hnumbered⟩ := events_eq s bodies
  rw [heq]
  exact hnumbered h

theorem event_eq_events (s : EventStream C) (body : EventBody C) :
    s.event body = s.events [body] := rfl

section

variable (s : EventStream C) (bodies : List (EventBody C))

/-- Events change nothing else. -/
@[simp] theorem events_frame :
    (s.events bodies).common = s.common
      ∧ (s.events bodies).nextOutputIndex = s.nextOutputIndex
      ∧ (s.events bodies).reasoningIndex = s.reasoningIndex
      ∧ (s.events bodies).messageIndex = s.messageIndex
      ∧ (s.events bodies).started = s.started
      ∧ (s.events bodies).reasoningStarted = s.reasoningStarted
      ∧ (s.events bodies).reasoningDone = s.reasoningDone
      ∧ (s.events bodies).messageStarted = s.messageStarted
      ∧ (s.events bodies).messageDone = s.messageDone
      ∧ (s.events bodies).finishBuilt = s.finishBuilt
      ∧ (s.events bodies).terminalEmitted = s.terminalEmitted
      ∧ (s.events bodies).reasoningText = s.reasoningText
      ∧ (s.events bodies).contentText = s.contentText
      ∧ (s.events bodies).ids = s.ids
      ∧ (s.events bodies).drawn = s.drawn := by
  obtain ⟨more, heq, -⟩ := events_eq s bodies
  rw [heq]
  simp

end

-- ============ the traces

/-- An item with the deltas of its text. -/
inductive Trace where
  | reasoning (id : Bytes) (status : Status) (deltas : List Bytes)
  | message (id : Bytes) (status : Status) (deltas : List Bytes)
  | functionCall (id callId name arguments : Bytes)

namespace Trace

/-- The item of a trace. -/
def item : Trace → OutputItem
  | reasoning id status ds => .reasoning id status [ds.flatten]
  | message id status ds => .message id status [ds.flatten]
  | functionCall id callId name arguments =>
    .functionCall id .completed callId name arguments

/-- The events of a text item that is open. -/
def openText (type : PartType) (item : OutputItem) (ds : List Bytes)
    (index : Nat) : List (EventBody C) :=
  .outputItemAdded index item :: .contentPartAdded item.id index 0 type []
    :: ds.map fun d => .textDelta type item.id index 0 d

/-- The end of a text item. -/
def closeText (type : PartType) (item : OutputItem) (text : Bytes)
    (index : Nat) : List (EventBody C) :=
  [.textDone type item.id index 0 text,
    .contentPartDone item.id index 0 type text,
    .outputItemDone index item]

/-- The events of a trace. -/
def events : Trace → Nat → List (EventBody C)
  | reasoning id status ds, index =>
    openText .reasoningText (.reasoning id .inProgress []) ds index
      ++ closeText .reasoningText (.reasoning id status [ds.flatten])
        ds.flatten index
  | message id status ds, index =>
    openText .outputText (.message id .inProgress []) ds index
      ++ closeText .outputText (.message id status [ds.flatten]) ds.flatten index
  | functionCall id callId name arguments, index =>
    .outputItemAdded index (.functionCall id .inProgress callId name [])
      :: ((if arguments.isEmpty then []
            else [.functionCallArgumentsDelta id index arguments])
        ++ [.functionCallArgumentsDone id index name arguments,
          .outputItemDone index
            (.functionCall id .completed callId name arguments)])

/-- They are the events of its item. -/
theorem streamed (t : Trace) (index : Nat) :
    ItemStreamed (C := C) index t.item (t.events index) := by
  -- the events of a text item between its edges
  have htext : ∀ (type : PartType) (opened item : OutputItem)
      (ds : List Bytes), opened.id = item.id → item.text = ds.flatten →
      ItemStreamed (C := C) index item (openText type opened ds index
        ++ closeText type item ds.flatten index) := by
    intro type opened item ds hid htext
    refine ⟨opened, .contentPartAdded opened.id index 0 type []
      :: (ds.map (fun d => .textDelta type opened.id index 0 d)
        ++ [.textDone type item.id index 0 ds.flatten,
          .contentPartDone item.id index 0 type ds.flatten]), ?_, hid, ?_,
      ?_, ?_⟩
    · unfold openText closeText
      simp
    · intro e he
      simp only [mem_cons, mem_append, mem_map, not_mem_nil, or_false] at he
      rcases he with rfl | ⟨d, -, rfl⟩ | rfl | rfl
      · exact ⟨rfl, congrArg some hid⟩
      · exact ⟨rfl, congrArg some hid⟩
      · exact ⟨rfl, rfl⟩
      · exact ⟨rfl, rfl⟩
    · rw [htext, flatMap_cons, flatMap_append, flatMap_map]
      show [] ++ (ds.flatMap (fun d => d) ++ []) = _
      simp [flatMap_id']
    · intro e he text hdone
      simp only [mem_cons, mem_append, mem_map, not_mem_nil, or_false] at he
      rcases he with rfl | ⟨d, -, rfl⟩ | rfl | rfl
      · cases hdone
      · cases hdone
      · rw [htext]
        exact (Option.some.inj hdone).symm
      · rw [htext]
        exact (Option.some.inj hdone).symm
  cases t with
  | reasoning id status ds =>
    exact htext _ _ (.reasoning id status [ds.flatten]) ds rfl (append_nil _)
  | message id status ds =>
    exact htext _ _ (.message id status [ds.flatten]) ds rfl (append_nil _)
  | functionCall id callId name arguments =>
    refine ⟨.functionCall id .inProgress callId name [],
      (if arguments.isEmpty then []
        else [.functionCallArgumentsDelta id index arguments])
      ++ [.functionCallArgumentsDone id index name arguments], ?_, rfl,
      ?_, ?_, ?_⟩
    · simp [events, item]
    · intro e he
      rcases mem_append.mp he with hin | hin
      · cases arguments with
        | nil => cases hin
        | cons b rest =>
          obtain rfl := mem_singleton.mp hin
          exact ⟨rfl, rfl⟩
      · obtain rfl := mem_singleton.mp hin
        exact ⟨rfl, rfl⟩
    · cases arguments with
      | nil => rfl
      | cons b rest =>
        show (b :: rest) ++ _ = b :: rest
        exact append_nil _
    · intro e he text hdone
      rcases mem_append.mp he with hin | hin
      · cases arguments with
        | nil => cases hin
        | cons b rest =>
          obtain rfl := mem_singleton.mp hin
          cases hdone
      · obtain rfl := mem_singleton.mp hin
        exact (Option.some.inj hdone).symm

/-- They all carry its index. -/
theorem events_index (t : Trace) (index : Nat) :
    ∀ e ∈ t.events (C := C) index, e.outputIndex = some (index : Int) := by
  intro e he
  cases t with
  | reasoning id status ds =>
    simp [events, openText, closeText] at he
    rcases he with rfl | rfl | ⟨d, -, rfl⟩ | rfl | rfl | rfl <;> rfl
  | message id status ds =>
    simp [events, openText, closeText] at he
    rcases he with rfl | rfl | ⟨d, -, rfl⟩ | rfl | rfl | rfl <;> rfl
  | functionCall id callId name arguments =>
    cases arguments with
    | nil =>
      simp [events] at he
      rcases he with rfl | rfl | rfl <;> rfl
    | cons b rest =>
      simp [events] at he
      rcases he with rfl | rfl | rfl | rfl <;> rfl

end Trace

/-- The events of the items, numbered from `index` on. -/
def traceEvents : Nat → List Trace → List (EventBody C)
  | _, [] => []
  | index, t :: rest => t.events index ++ traceEvents (index + 1) rest

theorem traceEvents_append (index : Nat) (a b : List Trace) :
    traceEvents (C := C) index (a ++ b)
      = traceEvents index a ++ traceEvents (index + a.length) b := by
  induction a generalizing index with
  | nil => rfl
  | cons t rest ih =>
    rw [cons_append, length_cons]
    show t.events index ++ traceEvents (index + 1) (rest ++ b) = _
    rw [ih, ← append_assoc, add_comm rest.length 1, ← add_assoc]
    rfl

theorem traceEvents_concat (ts : List Trace) (t : Trace) :
    traceEvents (C := C) 0 (ts ++ [t])
      = traceEvents 0 ts ++ t.events ts.length := by
  rw [traceEvents_append, zero_add]
  congr 1
  exact append_nil _

/-- The events with an index are those of the item there. -/
theorem traceEvents_filter (ts : List Trace) (index n : Nat) :
    (traceEvents (C := C) index ts).filter
        (fun e => e.outputIndex = some ((index + n : Nat) : Int))
      = (ts[n]?.map fun t => t.events (index + n)).getD [] := by
  induction ts generalizing index n with
  | nil => rfl
  | cons t rest ih =>
    show ((t.events index) ++ traceEvents (index + 1) rest).filter _ = _
    rw [filter_append]
    cases n with
    | zero =>
      rw [filter_eq_self.mpr, filter_eq_nil_iff.mpr, append_nil]
      · rfl
      · intro e he hindex
        have hlater : ∀ (us : List Trace) (j : Nat),
            ∀ e ∈ traceEvents (C := C) j us,
            ∃ k : Nat, j ≤ k ∧ e.outputIndex = some (k : Int) := by
          intro us
          induction us with
          | nil =>
            intro j e he
            cases he
          | cons u us ihu =>
            intro j e he
            rcases mem_append.mp he with hin | hin
            · exact ⟨j, le_refl j, u.events_index j e hin⟩
            · obtain ⟨k, hk, hindex⟩ := ihu (j + 1) e hin
              exact ⟨k, by omega, hindex⟩
        obtain ⟨k, hk, hk'⟩ := hlater rest (index + 1) e he
        rw [hk'] at hindex
        have := of_decide_eq_true hindex
        rw [Option.some.injEq] at this
        omega
      · intro e he
        rw [t.events_index index e he]
        exact decide_eq_true rfl
    | succ n =>
      rw [filter_eq_nil_iff.mpr, nil_append]
      · have hrest := ih (index + 1) n
        rw [show index + 1 + n = index + (n + 1) by omega] at hrest
        rw [hrest, getElem?_cons_succ]
      · intro e he hindex
        rw [t.events_index index e he] at hindex
        have := of_decide_eq_true hindex
        rw [Option.some.injEq] at this
        omega

-- ============ the deltas

/-- The first two events. -/
def headEvents (common : C) : List (EventBody C) :=
  [.created (inProgressResponse common), .inProgress (inProgressResponse common)]

/-- The events of the reasoning: open until content comes. -/
def reasoningBodies (id : Bytes) (rs cs : List Bytes) : List (EventBody C) :=
  if rs = [] then []
  else if cs = [] then
    Trace.openText .reasoningText (.reasoning id .inProgress []) rs 0
  else (Trace.reasoning id .completed rs).events 0

/-- The place of the message. -/
def messagePlace (rs : List Bytes) : Nat := if rs = [] then 0 else 1

/-- The events of the message. -/
def messagePart (id : Bytes) (rs cs : List Bytes) : List (EventBody C) :=
  if cs = [] then []
  else Trace.openText .outputText (.message id .inProgress []) cs
    (messagePlace rs)

/-- The encoder after the reasoning deltas `rs` and the content deltas
`cs`. -/
structure Streamed (draws : Nat → UInt64) (common : C) (rs cs : List Bytes)
    (s : EventStream C) : Prop where
  common_eq : s.common = common
  started : s.started = true
  unfinished : s.finishBuilt = false
  running : s.terminalEmitted = false
  reasoningStarted : s.reasoningStarted = true ↔ rs ≠ []
  reasoningDone : s.reasoningDone = true ↔ rs ≠ [] ∧ cs ≠ []
  messageStarted : s.messageStarted = true ↔ cs ≠ []
  messageOpen : s.messageDone = false
  reasoningText : s.reasoningText = rs.flatten
  contentText : s.contentText = cs.flatten
  reasoningIndex : rs ≠ [] → s.reasoningIndex = 0
  messageIndex : cs ≠ [] → s.messageIndex = messagePlace rs
  next : s.nextOutputIndex
    = (if rs = [] then 0 else 1) + (if cs = [] then 0 else 1)
  reasoningId : rs ≠ [] → ∃ k, s.ids.reasoning = randomId draws k "rs"
  messageId : cs ≠ [] → ∃ k, s.ids.message = randomId draws k "msg"
  functionCalls : s.ids.functionCalls = []
  bodies : s.written.map Event.body = headEvents common
    ++ (reasoningBodies s.ids.reasoning rs cs ++ messagePart s.ids.message rs cs)

variable {draws : Nat → UInt64} {common : C}

theorem start_streamed :
    ∃ s, start { common := common } = .ok s
      ∧ Streamed draws common [] [] s := by
  refine ⟨_, rfl, ?_⟩
  constructor
  case next => rfl
  case bodies => rfl
  all_goals simp [events, event]

variable {text : Bytes}

/-- A reasoning delta while there is no content. -/
theorem reasoningDelta_streamed {rs : List Bytes}
    (h : Streamed draws common rs [] s) (hne : text ≠ []) :
    ∃ s', s.reasoningDelta draws text = .ok s'
      ∧ Streamed draws common (rs ++ [text]) [] s' := by
  unfold reasoningDelta
  rw [h.started, h.unfinished]
  simp only [Bool.not_true, Bool.or_self, Bool.false_eq_true, if_false,
    isEmpty_eq_false_iff.mpr hne]
  refine ⟨_, rfl, ?_⟩
  have hnone : s.reasoningDone = false := by
    rw [← not_eq_true, h.reasoningDone]
    exact fun hno => hno.2 rfl
  have hmessage : s.messageStarted = false := by
    rw [← not_eq_true, h.messageStarted]
    exact fun hno => hno rfl
  by_cases hrs : rs = []
  · -- the item opens
    subst hrs
    have hfresh : s.reasoningStarted = false := by
      rw [← not_eq_true, h.reasoningStarted]
      exact fun hno => hno rfl
    have hbodies := h.bodies
    have htext := h.reasoningText
    have hcontent := h.contentText
    have hnext := h.next
    have hopened : s.ensureReasoning draws = events
        { s with
          reasoningStarted := true
          ids := { s.ids with reasoning := randomId draws s.drawn "rs" }
          drawn := s.drawn + 2
          reasoningIndex := 0
          nextOutputIndex := 1 }
        [.outputItemAdded 0
            (.reasoning (randomId draws s.drawn "rs") .inProgress []),
          .contentPartAdded (randomId draws s.drawn "rs") 0 0
            .reasoningText []] := by
      unfold ensureReasoning
      rw [hfresh, hnext]
      rfl
    rw [hopened]
    constructor
    case bodies =>
      rw [event_eq_events, events_bodies]
      simp [hbodies, reasoningBodies, messagePart, Trace.openText, OutputItem.id]
    all_goals simp [event_eq_events, h.common_eq, h.started, h.unfinished,
      h.running, hnone, hmessage, h.messageOpen, htext, hcontent,
      h.functionCalls]
    case reasoningId => exact ⟨_, rfl⟩
  · -- the item is open
    have hstarted : s.ensureReasoning draws = s := by
      unfold ensureReasoning
      rw [if_pos (h.reasoningStarted.mpr hrs)]
    have hindex := h.reasoningIndex hrs
    have hnext := h.next
    have hbodies := h.bodies
    have hid := h.reasoningId hrs
    rw [if_neg hrs] at hnext
    rw [hstarted]
    constructor
    case bodies =>
      rw [event_eq_events, events_bodies]
      simp [hbodies, reasoningBodies, messagePart, Trace.openText,
        OutputItem.id, hrs, hindex]
    all_goals simp [event_eq_events, h.common_eq, h.started, h.unfinished,
      h.running, hnone, hmessage, h.messageOpen, h.reasoningText,
      h.contentText, h.functionCalls, hindex, hnext, hid,
      h.reasoningStarted, hrs]

/-- A content delta. -/
theorem contentDelta_streamed {rs cs : List Bytes}
    (h : Streamed draws common rs cs s) (hne : text ≠ []) :
    ∃ s', s.contentDelta draws text = .ok s'
      ∧ Streamed draws common rs (cs ++ [text]) s' := by
  unfold contentDelta
  rw [h.started, h.unfinished]
  simp only [Bool.not_true, Bool.or_self, Bool.false_eq_true, if_false,
    isEmpty_eq_false_iff.mpr hne]
  refine ⟨_, rfl, ?_⟩
  by_cases hcs : cs = []
  · -- the reasoning is closed, and the message opens
    subst hcs
    have hnone : s.reasoningDone = false := by
      rw [← not_eq_true, h.reasoningDone]
      exact fun hno => hno.2 rfl
    have hmessage : s.messageStarted = false := by
      rw [← not_eq_true, h.messageStarted]
      exact fun hno => hno rfl
    have hnext := h.next
    have hbodies := h.bodies
    rw [if_pos rfl] at hnext
    by_cases hrs : rs = []
    · subst hrs
      have hfresh : s.reasoningStarted = false := by
        rw [← not_eq_true, h.reasoningStarted]
        exact fun hno => hno rfl
      have hclosed : s.closeReasoning s.reasoningText = s := by
        unfold EventStream.closeReasoning
        rw [hfresh]
        rfl
      have hopened : s.ensureMessage draws = events
          { s with
            messageStarted := true
            ids := { s.ids with message := randomId draws s.drawn "msg" }
            drawn := s.drawn + 2
            messageIndex := 0
            nextOutputIndex := 1 }
          [.outputItemAdded 0
              (.message (randomId draws s.drawn "msg") .inProgress []),
            .contentPartAdded (randomId draws s.drawn "msg") 0 0
              .outputText []] := by
        unfold ensureMessage
        rw [hmessage, hnext]
        rfl
      rw [hclosed, hopened]
      constructor
      case bodies =>
        rw [event_eq_events, events_bodies]
        simp [hbodies, reasoningBodies, messagePart, Trace.openText,
          OutputItem.id, messagePlace]
      all_goals simp [event_eq_events, h.common_eq, h.started, h.unfinished,
        h.running, hnone, hfresh, h.messageOpen, h.reasoningText,
        h.contentText, h.functionCalls, messagePlace]
      case messageId => exact ⟨_, rfl⟩
    · have hopen := h.reasoningStarted.mpr hrs
      have hindex := h.reasoningIndex hrs
      have hclosed : s.closeReasoning s.reasoningText = events
          { s with reasoningDone := true }
          (Trace.closeText .reasoningText
            (.reasoning s.ids.reasoning .completed [rs.flatten]) rs.flatten
            0) := by
        unfold EventStream.closeReasoning
        rw [hopen, hnone, hindex, h.reasoningText]
        rfl
      have hopened : ∀ t : EventStream C, t.messageStarted = false →
          t.nextOutputIndex = 1 → t.ensureMessage draws = events
          { t with
            messageStarted := true
            ids := { t.ids with message := randomId draws t.drawn "msg" }
            drawn := t.drawn + 2
            messageIndex := 1
            nextOutputIndex := 2 }
          [.outputItemAdded 1
              (.message (randomId draws t.drawn "msg") .inProgress []),
            .contentPartAdded (randomId draws t.drawn "msg") 1 0
              .outputText []] := by
        intro t ht htn
        unfold ensureMessage
        rw [ht, htn]
        rfl
      rw [hclosed, hopened _ (by simpa using hmessage)
        (by simpa [hrs] using hnext)]
      have hid := h.reasoningId hrs
      constructor
      case bodies =>
        rw [event_eq_events, events_bodies]
        simp [hbodies, reasoningBodies, messagePart, Trace.openText,
          OutputItem.id, messagePlace, hrs, Trace.events]
      all_goals simp [event_eq_events, h.common_eq, h.started, h.unfinished,
        h.running, hopen, h.messageOpen, h.reasoningText, hrs, hindex, hid,
        h.contentText, h.functionCalls, messagePlace]
      case messageId => exact ⟨_, rfl⟩
  · -- the message is open
    have hclosed : s.closeReasoning s.reasoningText = s := by
      unfold EventStream.closeReasoning
      rw [if_pos]
      by_cases hrs : rs = []
      · have hfresh : s.reasoningStarted = false := by
          rw [← not_eq_true, h.reasoningStarted]
          exact fun hno => hno hrs
        rw [hfresh]
        rfl
      · rw [h.reasoningDone.mpr ⟨hrs, hcs⟩, Bool.or_true]
    have hopened : s.ensureMessage draws = s := by
      unfold ensureMessage
      rw [if_pos (h.messageStarted.mpr hcs)]
    have hnext := h.next
    have hbodies := h.bodies
    have hindex := h.messageIndex hcs
    have hid := h.messageId hcs
    rw [if_neg hcs] at hnext
    rw [hclosed, hopened]
    constructor
    case bodies =>
      rw [event_eq_events, events_bodies]
      simp [hbodies, reasoningBodies, messagePart, Trace.openText,
        OutputItem.id, hcs, hindex]
    case reasoningIndex => simpa [event_eq_events] using h.reasoningIndex
    case reasoningId => simpa [event_eq_events] using h.reasoningId
    all_goals simp [event_eq_events, h.common_eq, h.started, h.unfinished,
      h.running, h.messageOpen, h.reasoningText, h.contentText,
      h.functionCalls, hindex, hnext, hid, h.reasoningStarted,
      h.reasoningDone, h.messageStarted, hcs]

/-- Deltas of one channel, one after the other. -/
theorem deltas_streamed (call : Bytes → SinkCall) {P : List Bytes → EventStream C → Prop}
    (hstep : ∀ {ds : List Bytes} {s : EventStream C} {t : Bytes}, P ds s → t ≠ [] →
      ∃ s', delta draws s (call t) = .ok s' ∧ P (ds ++ [t]) s') (more : List Bytes) :
    ∀ {ds : List Bytes} {s : EventStream C}, P ds s → (∀ t ∈ more, t ≠ []) →
      ∃ s', (more.map call).foldlM (delta draws) s = .ok s' ∧ P (ds ++ more) s' := by
  induction more with
  | nil =>
    intro ds s h _
    exact ⟨s, rfl, by rwa [append_nil]⟩
  | cons t rest ih =>
    intro ds s h hne
    obtain ⟨s₁, hfirst, h₁⟩ := hstep h (hne t (.head _))
    obtain ⟨s', hrest, h'⟩ :=
      ih h₁ fun u hu => hne u (.tail _ hu)
    refine ⟨s', ?_, by rwa [append_assoc] at h'⟩
    rw [map_cons, foldlM_cons, hfirst]
    exact hrest

/-- Reasoning and then content. -/
def inOrder (rs cs : List Bytes) : List SinkCall :=
  rs.map .onReasoning ++ cs.map .onContent

theorem inOrder_streamed (rs cs : List Bytes)
    (hne : Substantial (inOrder rs cs)) (hs : Streamed draws common [] [] s) :
    ∃ s', (inOrder rs cs).foldlM (delta draws) s = .ok s'
      ∧ Streamed draws common rs cs s' := by
  obtain ⟨s₁, hrun₁, h₁⟩ := deltas_streamed .onReasoning
    (P := fun rs => Streamed draws common rs []) (fun h hne => reasoningDelta_streamed h hne)
    rs hs (by
    intro t ht
    exact hne (.onReasoning t) (mem_append_left _ (mem_map.mpr ⟨t, ht, rfl⟩)))
  obtain ⟨s₂, hrun₂, h₂⟩ := deltas_streamed .onContent (P := Streamed draws common rs)
    (fun h hne => contentDelta_streamed h hne) cs h₁ (by
    intro t ht
    exact hne (.onContent t) (mem_append_right _ (mem_map.mpr ⟨t, ht, rfl⟩)))
  refine ⟨s₂, ?_, h₂⟩
  unfold inOrder
  rw [foldlM_append, hrun₁]
  exact hrun₂

/-- Deltas are in order up to the end, or up to a reasoning delta that
follows content. -/
theorem order_cases (calls : List SinkCall) :
    (∃ rs cs, calls = inOrder rs cs)
      ∨ ∃ rs cs r after, cs ≠ []
        ∧ calls = inOrder rs cs ++ .onReasoning r :: after := by
  induction calls with
  | nil => exact .inl ⟨[], [], rfl⟩
  | cons c rest ih =>
    cases c with
    | onReasoning t =>
      rcases ih with ⟨rs, cs, rfl⟩ | ⟨rs, cs, r, after, hcs, rfl⟩
      · exact .inl ⟨t :: rs, cs, rfl⟩
      · exact .inr ⟨t :: rs, cs, r, after, hcs, rfl⟩
    | onContent t =>
      rcases ih with ⟨rs, cs, rfl⟩ | ⟨rs, cs, r, after, hcs, rfl⟩
      · cases rs with
        | nil => exact .inl ⟨[], t :: cs, rfl⟩
        | cons r rs =>
          exact .inr ⟨[], [t], r, inOrder rs cs, by simp, rfl⟩
      · cases rs with
        | nil => exact .inr ⟨[], t :: cs, r, after, by simp, rfl⟩
        | cons r' rs =>
          exact .inr ⟨[], [t], r',
            inOrder rs cs ++ .onReasoning r :: after, by simp, rfl⟩

/-- In order means that nothing is interleaved. -/
theorem inOrder_not_interleaved (rs cs : List Bytes) :
    ¬ Interleaved (inOrder rs cs) := by
  rintro ⟨before, text, between, reasoning, after, heq⟩
  have hcontent : ∀ t, SinkCall.onReasoning t ∉ cs.map .onContent := by
    intro t ht
    obtain ⟨u, -, hu⟩ := mem_map.mp ht
    cases hu
  unfold inOrder at heq
  rcases append_eq_append_iff.mp heq with
    ⟨mid, -, hmid⟩ | ⟨mid, hrs, hmid⟩
  · refine hcontent reasoning ?_
    rw [hmid]
    exact mem_append_right _ (.tail _ (mem_append_right _ (.head _)))
  · cases mid with
    | nil =>
      rw [nil_append] at hmid
      refine hcontent reasoning ?_
      rw [← hmid]
      exact .tail _ (mem_append_right _ (.head _))
    | cons c mid =>
      obtain ⟨rfl, -⟩ := cons.inj hmid
      have hin : SinkCall.onContent text ∈ rs.map .onReasoning := by
        rw [hrs]
        exact mem_append_right _ (.head _)
      obtain ⟨u, -, hu⟩ := mem_map.mp hin
      cases hu

theorem interleaved_iff_not_inOrder (calls : List SinkCall) :
    Interleaved calls ↔ ∃ rs cs r after, cs ≠ []
      ∧ calls = inOrder rs cs ++ .onReasoning r :: after := by
  constructor
  · intro h
    rcases order_cases calls with ⟨rs, cs, rfl⟩ | hsplit
    · exact absurd h (inOrder_not_interleaved rs cs)
    · exact hsplit
  · rintro ⟨rs, cs, r, after, hcs, rfl⟩
    obtain ⟨cs, t, rfl⟩ := eq_nil_or_concat cs |>.resolve_left hcs
    refine ⟨inOrder rs cs, t, [], r, after, ?_⟩
    unfold inOrder
    simp

-- ============ the end

theorem randomId_ne_nil (draws : Nat → UInt64) (k : Nat) (kind : String) :
    randomId draws k kind ≠ [] := by
  unfold randomId
  simp [ascii]

/-- The trace of the reasoning. -/
def reasoningTraces (id : Bytes) (status : Status) (rs : List Bytes) :
    List Trace :=
  if rs = [] then [] else [.reasoning id status rs]

theorem reasoningTraces_length (id : Bytes) (status : Status) (rs : List Bytes) :
    (reasoningTraces id status rs).length = messagePlace rs := by
  unfold reasoningTraces messagePlace
  split <;> rfl

/-- The encoder in `finish`, once the reasoning is closed. -/
structure Reasoned (draws : Nat → UInt64) (common : C)
    (outcome : GenerationOutcome) (rs cs : List Bytes) (s : EventStream C) :
    Prop where
  common_eq : s.common = common
  finished : s.finishBuilt = true
  running : s.terminalEmitted = false
  messageStarted : s.messageStarted = true ↔ cs ≠ []
  messageOpen : s.messageDone = false
  contentText : s.contentText = cs.flatten
  messageIndex : cs ≠ [] → s.messageIndex = messagePlace rs
  next : s.nextOutputIndex = messagePlace rs + (if cs = [] then 0 else 1)
  reasoningId : rs ≠ [] → s.ids.reasoning ≠ []
  messageId : cs ≠ [] → s.ids.message ≠ []
  functionCalls : s.ids.functionCalls = []
  bodies : s.written.map Event.body = headEvents common
    ++ (traceEvents 0 (reasoningTraces s.ids.reasoning
        (reasoningStatus outcome) rs)
      ++ messagePart s.ids.message rs cs)

section

variable {outcome : GenerationOutcome} {rs cs : List Bytes} {s : EventStream C}

theorem finishReasoning_reasoned (h : Streamed draws common rs cs s)
    (hne : Substantial (inOrder rs cs)) (hreasoning : rs.flatten
      = outcome.reasoning) (hcontent : cs.flatten <+: outcome.text) :
    Reasoned draws common outcome rs cs (finishReasoning draws
      { s with finishBuilt := true } outcome) := by
  have hbodies := h.bodies
  have hnext := h.next
  by_cases hrs : rs = []
  · subst hrs
    have hfresh : s.reasoningStarted = false := by
      rw [← not_eq_true, h.reasoningStarted]
      exact fun hno => hno rfl
    have hnothing : finishReasoning draws { s with finishBuilt := true }
        outcome = { s with finishBuilt := true } := by
      unfold finishReasoning EventStream.closeReasoning
      rw [← hreasoning]
      show (if !s.reasoningStarted || s.reasoningDone then _ else _) = _
      rw [hfresh]
      rfl
    rw [hnothing]
    constructor
    case bodies =>
      simp [hbodies, reasoningTraces, reasoningBodies, traceEvents]
    case messageId =>
      intro hcs
      obtain ⟨k, hk⟩ := h.messageId hcs
      show s.ids.message ≠ []
      rw [hk]
      exact randomId_ne_nil draws k "msg"
    case messageIndex => exact h.messageIndex
    all_goals simp [h.common_eq, h.running, h.messageStarted, h.messageOpen,
      h.contentText, hnext, h.functionCalls, messagePlace]
  · have hopen := h.reasoningStarted.mpr hrs
    have hindex := h.reasoningIndex hrs
    obtain ⟨k, hid⟩ := h.reasoningId hrs
    have hidne : s.ids.reasoning ≠ [] := by
      rw [hid]
      exact randomId_ne_nil draws k "rs"
    have hstarted : finishReasoning draws { s with finishBuilt := true }
        outcome = closeReasoning { s with finishBuilt := true }
          outcome.reasoning (reasoningStatus outcome) := by
      unfold finishReasoning
      show EventStream.closeReasoning (if !outcome.reasoning.isEmpty
        && !s.reasoningStarted then _ else _) _ _ = _
      rw [hopen, Bool.not_true, Bool.and_false]
      rfl
    have hmessageId : cs ≠ [] → s.ids.message ≠ [] := by
      intro hcs
      obtain ⟨j, hj⟩ := h.messageId hcs
      rw [hj]
      exact randomId_ne_nil draws j "msg"
    rw [hstarted]
    by_cases hcs : cs = []
    · -- it is closed here
      have hundone : s.reasoningDone = false := by
        rw [← not_eq_true, h.reasoningDone]
        exact fun hno => hno.2 hcs
      have hclosed : closeReasoning
          { s with finishBuilt := true } outcome.reasoning
            (reasoningStatus outcome)
          = events { s with
              finishBuilt := true
              reasoningDone := true
              reasoningText := outcome.reasoning }
            (Trace.closeText .reasoningText (.reasoning s.ids.reasoning
              (reasoningStatus outcome) [rs.flatten]) rs.flatten 0) := by
        unfold EventStream.closeReasoning
        show (if !s.reasoningStarted || s.reasoningDone then _ else _) = _
        rw [hopen, hundone, hreasoning]
        show events _ _ = _
        rw [show ({ s with finishBuilt := true } : EventStream
          C).reasoningIndex = s.reasoningIndex from rfl, hindex]
        rfl
      rw [hclosed]
      constructor
      case bodies =>
        simp [hbodies, reasoningTraces, reasoningBodies, traceEvents, hrs,
          hcs, Trace.events, messagePart]
      all_goals simp [h.common_eq, h.running, h.messageStarted,
        h.messageOpen, h.contentText, hnext, h.functionCalls, messagePlace,
        hrs, hcs, hidne]
    · -- the content has closed it
      have hdone := h.reasoningDone.mpr ⟨hrs, hcs⟩
      have hcompleted : reasoningStatus outcome = .completed := by
        have htext : outcome.text ≠ [] := by
          intro hempty
          rw [hempty, prefix_nil, flatten_eq_nil_iff] at hcontent
          obtain ⟨t, rest, rfl⟩ := exists_cons_of_ne_nil hcs
          refine hne (.onContent t) ?_ (hcontent t (.head _))
          exact mem_append_right _ (.head _)
        unfold reasoningStatus
        rw [isEmpty_eq_false_iff.mpr htext]
        rfl
      have hclosed : closeReasoning
          { s with finishBuilt := true } outcome.reasoning
            (reasoningStatus outcome) = { s with finishBuilt := true } := by
        unfold EventStream.closeReasoning
        show (if !s.reasoningStarted || s.reasoningDone then _ else _) = _
        rw [hdone, Bool.or_true]
        rfl
      rw [hclosed]
      constructor
      case bodies =>
        simp [hbodies, reasoningTraces, reasoningBodies, traceEvents, hrs,
          hcs, hcompleted]
      case messageId => exact hmessageId
      case messageIndex => exact h.messageIndex
      all_goals simp [h.common_eq, h.running, h.messageStarted,
        h.messageOpen, h.contentText, hnext, h.functionCalls, messagePlace,
        hrs, hcs, hidne]

/-- The encoder in `finish`, with the message open. -/
structure Messaging (common : C) (ts : List Trace) (reasoningId : Bytes)
    (ds : List Bytes) (s : EventStream C) : Prop where
  common_eq : s.common = common
  finished : s.finishBuilt = true
  running : s.terminalEmitted = false
  messageStarted : s.messageStarted = true
  messageOpen : s.messageDone = false
  contentText : s.contentText = ds.flatten
  messageIndex : s.messageIndex = ts.length
  next : s.nextOutputIndex = ts.length + 1
  reasoningId_eq : s.ids.reasoning = reasoningId
  messageId : s.ids.message ≠ []
  functionCalls : s.ids.functionCalls = []
  bodies : s.written.map Event.body = headEvents common
    ++ (traceEvents 0 ts ++ Trace.openText .outputText
      (.message s.ids.message .inProgress []) ds ts.length)

theorem ensureMessage_messaging (h : Reasoned draws common outcome rs cs s) :
    Messaging common (reasoningTraces s.ids.reasoning
      (reasoningStatus outcome) rs) s.ids.reasoning cs
      (s.ensureMessage draws) := by
  have hbodies := h.bodies
  have hnext := h.next
  unfold ensureMessage
  by_cases hcs : cs = []
  · have hfresh : s.messageStarted = false := by
      rw [← not_eq_true, h.messageStarted]
      exact fun hno => hno hcs
    rw [if_pos hcs, Int.add_zero] at hnext
    rw [hfresh]
    constructor
    case bodies =>
      simp [hbodies, messagePart, Trace.openText, OutputItem.id, hcs, hnext,
        reasoningTraces_length]
    all_goals simp [h.common_eq, h.finished, h.running, h.messageOpen,
      h.contentText, h.functionCalls, reasoningTraces_length, hnext, hcs,
      randomId_ne_nil]
  · rw [if_pos (h.messageStarted.mpr hcs)]
    rw [if_neg hcs] at hnext
    constructor
    case bodies =>
      simp [hbodies, messagePart, hcs, reasoningTraces_length]
    case messageId => exact h.messageId hcs
    all_goals simp [h.common_eq, h.finished, h.running, h.messageOpen,
      h.contentText, h.functionCalls, reasoningTraces_length, hnext,
      h.messageIndex hcs, h.messageStarted, hcs]

variable {ts : List Trace} {reasoningId : Bytes} {ds : List Bytes}

/-- Another delta of the open message. -/
theorem Messaging.more (h : Messaging common ts reasoningId ds s)
    (suffix : Bytes) :
    Messaging common ts reasoningId (ds ++ [suffix])
      (event { s with contentText := s.contentText ++ suffix }
        (.textDelta .outputText s.ids.message s.messageIndex 0 suffix)) := by
  rw [event_eq_events]
  constructor
  case bodies =>
    simp [h.bodies, Trace.openText, OutputItem.id, h.messageIndex]
  case messageId => simpa using h.messageId
  all_goals simp [h.common_eq, h.finished, h.running, h.messageOpen,
    h.contentText, h.functionCalls, h.messageIndex, h.messageStarted,
    h.next, h.reasoningId_eq]

/-- The rest of the text, where some was not streamed. -/
theorem Messaging.finishText {text : Bytes}
    (h : Messaging common ts reasoningId ds s)
    (hcontent : ds.flatten <+: text) :
    ∃ s' ds', s.finishText text = .ok s' ∧ ds'.flatten = text
      ∧ Messaging common ts reasoningId ds' s' := by
  unfold EventStream.finishText
  by_cases hsame : text = ds.flatten
  · refine ⟨s, ds, ?_, hsame.symm, h⟩
    rw [if_pos (hsame.trans h.contentText.symm)]
  · obtain ⟨suffix, hsuffix⟩ := hcontent
    have hdrop : text.drop s.contentText.length = suffix := by
      rw [h.contentText, ← hsuffix, drop_left]
    have hsuffixne : suffix ≠ [] := by
      rintro rfl
      rw [append_nil] at hsuffix
      exact hsame hsuffix.symm
    have hpre : s.contentText.isPrefixOf text = true := by
      rw [h.contentText, isPrefixOf_iff_prefix]
      exact ⟨suffix, hsuffix⟩
    refine ⟨_, ds ++ [suffix], ?_, ?_, h.more suffix⟩
    · rw [h.contentText, if_neg hsame, ← h.contentText, hpre]
      dsimp only
      rw [hdrop]
      simp [hsuffixne]
    · rw [← hsuffix]
      simp

/-- All items are done. -/
structure Closed (common : C) (ts : List Trace) (s : EventStream C) :
    Prop where
  common_eq : s.common = common
  finished : s.finishBuilt = true
  running : s.terminalEmitted = false
  next : s.nextOutputIndex = ts.length
  bodies : s.written.map Event.body = headEvents common ++ traceEvents 0 ts

/-- The trace of the message, where there is one. -/
def messageTraces (outcome : GenerationOutcome) (id : Bytes)
    (ds : List Bytes) : List Trace :=
  if !outcome.text.isEmpty || outcome.toolCalls.isEmpty then
    [.message id (itemStatus outcome.finishReason) ds]
  else []

theorem closeMessage_closed (h : Messaging common ts reasoningId ds s)
    (status : Status) :
    Closed common (ts ++ [.message s.ids.message status ds])
        (closeMessage s ds.flatten status)
      ∧ (closeMessage s ds.flatten status).ids = s.ids := by
  have hclosed : closeMessage s ds.flatten status = events
      { s with messageDone := true, contentText := ds.flatten }
      (Trace.closeText .outputText (.message s.ids.message status
        [ds.flatten]) ds.flatten ts.length) := by
    unfold closeMessage
    rw [h.messageStarted, h.messageOpen, h.messageIndex]
    rfl
  rw [hclosed]
  refine ⟨⟨?_, ?_, ?_, ?_, ?_⟩, by simp only [events_frame]⟩
  · simp only [events_frame]
    exact h.common_eq
  · simp only [events_frame]
    exact h.finished
  · simp only [events_frame]
    exact h.running
  · simp only [events_frame]
    simp [h.next]
  · rw [events_bodies, traceEvents_concat]
    simp [h.bodies, Trace.events]

theorem finishMessage_closed (h : Reasoned draws common outcome rs cs s)
    (hne : Substantial (inOrder rs cs))
    (hcontent : cs.flatten <+: outcome.text) :
    ∃ s' ds, s.finishMessage draws outcome = .ok s' ∧ ds.flatten = outcome.text
      ∧ s'.ids.reasoning = s.ids.reasoning
      ∧ (messageTraces outcome s'.ids.message ds ≠ [] → s'.ids.message ≠ [])
      ∧ s'.ids.functionCalls = []
      ∧ Closed common (reasoningTraces s'.ids.reasoning
        (reasoningStatus outcome) rs
        ++ messageTraces outcome s'.ids.message ds) s' := by
  have hbodies := h.bodies
  have hnext := h.next
  unfold finishMessage
  by_cases hneeds : (!outcome.text.isEmpty || outcome.toolCalls.isEmpty) = true
  · rw [if_pos hneeds]
    have hopened := ensureMessage_messaging h
    obtain ⟨s₁, ds, hrest, hds, h₁⟩ := hopened.finishText hcontent
    obtain ⟨hclosed, hids⟩ :=
      closeMessage_closed h₁ (itemStatus outcome.finishReason)
    have hmessages : ∀ id, messageTraces outcome id ds
        = [.message id (itemStatus outcome.finishReason) ds] := by
      intro id
      unfold messageTraces
      rw [if_pos hneeds]
    refine ⟨closeMessage s₁ ds.flatten
      (itemStatus outcome.finishReason), ds, ?_, hds, ?_, ?_, ?_, ?_⟩
    · rw [hrest, hds]
      rfl
    · rw [hids]
      exact h₁.reasoningId_eq
    · rw [hids]
      exact fun _ => h₁.messageId
    · rw [hids]
      exact h₁.functionCalls
    · rw [hmessages, hids, h₁.reasoningId_eq]
      exact hclosed
  · rw [if_neg hneeds]
    have htext : outcome.text = [] := by
      rw [or_eq_true, not_or] at hneeds
      simpa using hneeds.1
    have hcs : cs = [] := by
      rw [htext, prefix_nil, flatten_eq_nil_iff] at hcontent
      cases cs with
      | nil => rfl
      | cons t rest =>
        refine absurd (hcontent t (.head _)) (hne (.onContent t) ?_)
        exact mem_append_right _ (.head _)
    have hmessages : messageTraces outcome s.ids.message [] = [] := by
      unfold messageTraces
      rw [if_neg hneeds]
    refine ⟨s, [], rfl, htext.symm, rfl, ?_, h.functionCalls, ?_⟩
    · intro hno
      exact absurd hmessages hno
    · rw [hmessages, append_nil]
      refine ⟨h.common_eq, h.finished, h.running, ?_, ?_⟩
      · rw [reasoningTraces_length, hnext, if_pos hcs, Int.add_zero]
      · rw [hbodies, messagePart, if_pos hcs, append_nil]

/-- The trace of a call. -/
def callTrace (id : Bytes) (call : ToolCall) : Trace :=
  .functionCall id call.id call.name call.argumentsJson

/-- The calls, each with an id of its own. -/
theorem finishCalls_closed (calls : List ToolCall) :
    ∀ {ts : List Trace} {s : EventStream C}, Closed common ts s →
      ∃ ids, ids.length = calls.length ∧ (∀ id ∈ ids, id ≠ [])
        ∧ (calls.foldl (finishCall draws) s).ids = { s.ids with
        functionCalls := s.ids.functionCalls ++ ids }
        ∧ Closed common (ts ++ List.zipWith callTrace ids calls)
            (calls.foldl (finishCall draws) s) := by
  induction calls with
  | nil =>
    intro ts s h
    refine ⟨[], rfl, nofun, ?_, ?_⟩
    · rw [append_nil]
      rfl
    · simpa using h
  | cons call rest ih =>
    intro ts s h
    have hone : Closed common
        (ts ++ [callTrace (randomId draws s.drawn "fc") call])
        (s.finishCall draws call) := by
      unfold finishCall
      refine ⟨?_, ?_, ?_, ?_, ?_⟩
      · simp only [events_frame]
        exact h.common_eq
      · simp only [events_frame]
        exact h.finished
      · simp only [events_frame]
        exact h.running
      · simp only [events_frame]
        simp [h.next]
      · rw [events_bodies, traceEvents_concat]
        simp [h.bodies, h.next, Trace.events, callTrace]
    have hids : (s.finishCall draws call).ids = { s.ids with
        functionCalls := s.ids.functionCalls
          ++ [randomId draws s.drawn "fc"] } := by
      unfold finishCall
      simp only [events_frame]
    obtain ⟨ids, hlength, hne, hmore, hclosed⟩ := ih hone
    refine ⟨randomId draws s.drawn "fc" :: ids, ?_, ?_, ?_, ?_⟩
    · simp [hlength]
    · intro id hid
      rcases mem_cons.mp hid with rfl | hin
      · exact randomId_ne_nil draws s.drawn "fc"
      · exact hne id hin
    · rw [foldl_cons, hmore, hids]
      simp
    · rw [append_assoc] at hclosed
      exact hclosed

theorem idOr_of_ne_nil (drawn : Nat) (kind : String) {id : Bytes}
    (h : id ≠ []) : idOr draws drawn kind id = (id, drawn) := by
  unfold idOr
  rw [if_neg (by simpa using h)]

/-- The items of the calls keep their ids. -/
theorem functionCallItems_eq (calls : List ToolCall) :
    ∀ {ids : List Bytes} (drawn : Nat), ids.length = calls.length →
      (∀ id ∈ ids, id ≠ []) →
      functionCallItems draws drawn ids calls
        = (List.zipWith callTrace ids calls).map Trace.item := by
  induction calls with
  | nil =>
    intro ids drawn hlength _
    rw [length_eq_zero_iff.mp hlength]
    rfl
  | cons call rest ih =>
    intro ids drawn hlength hne
    cases ids with
    | nil => cases hlength
    | cons id ids =>
      unfold functionCallItems
      rw [List.headD_cons, idOr_of_ne_nil drawn "fc" (hne id List.mem_cons_self)]
      show _ :: functionCallItems draws drawn ids rest = _
      rw [ih drawn (Nat.succ.inj hlength)
        fun i hi => hne i (.tail _ hi)]
      rfl

/-- `finish` closes every item, and the response has the same items. -/
theorem finish_closed (h : Streamed draws common rs cs s)
    (hne : Substantial (inOrder rs cs))
    (hreasoning : rs.flatten = outcome.reasoning)
    (hcontent : cs.flatten <+: outcome.text) (now : Int) :
    ∃ built s' ts, s.finish draws now outcome = .ok (built, s')
      ∧ built.body.output = ts.map Trace.item ∧ Closed common ts s' := by
  have hreasoned := finishReasoning_reasoned h hne hreasoning hcontent
  obtain ⟨s₁, ds, hmessage, hds, hid, hmessageId, hcalls, hclosed⟩ :=
    finishMessage_closed hreasoned hne hcontent
  obtain ⟨ids, hlength, hidsne, hids, hall⟩ :=
    @finishCalls_closed C draws common outcome.toolCalls _ _ hclosed
  refine ⟨buildResponse draws (outcome.toolCalls.foldl (finishCall draws)
      s₁).drawn (outcome.toolCalls.foldl (finishCall draws) s₁).common now
      outcome (outcome.toolCalls.foldl (finishCall draws) s₁).ids, _, _, ?_,
    ?_, hall⟩
  · have hready : ¬ (!s.started || s.finishBuilt) = true := by
      rw [h.started, h.unfinished]
      exact false_ne_true
    unfold finish
    rw [if_neg hready]
    show (finishMessage draws _ outcome >>= _) = _
    rw [hmessage]
    rfl
  · have hrsne : outcome.reasoning.isEmpty = true ↔ rs = [] := by
      rw [List.isEmpty_iff, ← hreasoning, List.flatten_eq_nil_iff]
      constructor
      · intro hnil
        cases rs with
        | nil => rfl
        | cons t rest =>
          refine absurd (hnil t (.head _)) (hne (.onReasoning t) ?_)
          exact mem_append_left _ (.head _)
      · rintro rfl t ht
        cases ht
    have hrid : rs ≠ [] → s₁.ids.reasoning ≠ [] := by
      rw [hid]
      exact hreasoned.reasoningId
    show outputItems draws _ _ outcome = _
    rw [hids, hcalls, nil_append, map_append, map_append]
    unfold outputItems
    have hreason : ∀ drawn, (if outcome.reasoning.isEmpty then ([], drawn)
        else
          ([OutputItem.reasoning (idOr draws drawn "rs" s₁.ids.reasoning).1
            (reasoningStatus outcome) [outcome.reasoning]],
            (idOr draws drawn "rs" s₁.ids.reasoning).2))
        = ((reasoningTraces s₁.ids.reasoning (reasoningStatus outcome)
            rs).map Trace.item, drawn) := by
      intro drawn
      by_cases hrs : rs = []
      · rw [if_pos (hrsne.mpr hrs), reasoningTraces, if_pos hrs]
        rfl
      · rw [if_neg (fun hno => hrs (hrsne.mp hno)), reasoningTraces,
          if_neg hrs, idOr_of_ne_nil drawn "rs" (hrid hrs), ← hreasoning]
        rfl
    have hmsg : ∀ drawn, (if !outcome.text.isEmpty
          || outcome.toolCalls.isEmpty then
          ([OutputItem.message (idOr draws drawn "msg" s₁.ids.message).1
            (itemStatus outcome.finishReason) [outcome.text]],
            (idOr draws drawn "msg" s₁.ids.message).2)
        else ([], drawn))
        = ((messageTraces outcome s₁.ids.message ds).map Trace.item,
          drawn) := by
      intro drawn
      unfold messageTraces at hmessageId ⊢
      by_cases hneeds : (!outcome.text.isEmpty
          || outcome.toolCalls.isEmpty) = true
      · rw [if_pos hneeds] at hmessageId
        rw [if_pos hneeds, if_pos hneeds,
          idOr_of_ne_nil drawn "msg" (hmessageId (by simp)), ← hds]
        rfl
      · rw [if_neg hneeds, if_neg hneeds]
        rfl
    dsimp only at hreason hmsg ⊢
    rw [hreason]
    dsimp only
    rw [hmsg]
    dsimp only
    rw [functionCallItems_eq outcome.toolCalls _ hlength hidsne]

end

-- ============ agreement

/-- A step that only writes, in numbers; the id of the reasoning keeps its
kind. -/
structure Grows (draws : Nat → UInt64) (s s' : EventStream C) : Prop where
  numbered : Numbered s.written s.sequence → Numbered s'.written s'.sequence
  written : s.written.map Event.body <+: s'.written.map Event.body
  reasoningId : (s.ids.reasoning = []
      ∨ ∃ k, s.ids.reasoning = randomId draws k "rs") →
    s'.ids.reasoning = [] ∨ ∃ k, s'.ids.reasoning = randomId draws k "rs"

theorem Grows.refl (s : EventStream C) : Grows draws s s :=
  ⟨id, prefix_refl _, id⟩

theorem Grows.trans {s s' s'' : EventStream C} (h : Grows draws s s')
    (h' : Grows draws s' s'') : Grows draws s s'' :=
  ⟨fun hs => h'.numbered (h.numbered hs), h.written.trans h'.written,
    fun hs => h'.reasoningId (h.reasoningId hs)⟩

/-- Events written after a change of the other fields. -/
theorem grows_events {s t : EventStream C} (hwritten : t.written = s.written)
    (hsequence : t.sequence = s.sequence)
    (hid : t.ids.reasoning = s.ids.reasoning
      ∨ ∃ k, t.ids.reasoning = randomId draws k "rs")
    (bodies : List (EventBody C)) : Grows draws s (t.events bodies) := by
  refine ⟨?_, ?_, ?_⟩
  · rw [← hwritten, ← hsequence]
    exact fun hs => events_numbered hs bodies
  · rw [events_bodies, hwritten]
    exact prefix_append _ _
  · simp only [events_frame]
    intro hs
    rcases hid with heq | hnew
    · rw [heq]
      exact hs
    · exact .inr hnew

/-- One event, after a change of the texts or the flags. -/
theorem grows_event {s t : EventStream C} {body : EventBody C}
    (hwritten : t.written = s.written) (hsequence : t.sequence = s.sequence)
    (hids : t.ids = s.ids) : Grows draws s (t.event body) :=
  grows_events hwritten hsequence (.inl (by rw [hids])) [body]

theorem ensureReasoning_grows (s : EventStream C) :
    Grows draws s (s.ensureReasoning draws) := by
  unfold ensureReasoning
  split
  · exact Grows.refl s
  · apply grows_events
    · rfl
    · rfl
    · exact .inr ⟨s.drawn, rfl⟩

theorem closeReasoning_grows (s : EventStream C) (text : Bytes)
    (status : Status) :
    Grows draws s (closeReasoning s text status) := by
  unfold EventStream.closeReasoning
  split
  · exact Grows.refl s
  · apply grows_events
    · rfl
    · rfl
    · exact .inl rfl

theorem ensureMessage_grows (s : EventStream C) :
    Grows draws s (s.ensureMessage draws) := by
  unfold ensureMessage
  split
  · exact Grows.refl s
  · apply grows_events
    · rfl
    · rfl
    · exact .inl rfl

theorem closeMessage_grows (s : EventStream C) (text : Bytes) (status : Status) :
    Grows draws s (closeMessage s text status) := by
  unfold closeMessage
  split
  · exact Grows.refl s
  · apply grows_events
    · rfl
    · rfl
    · exact .inl rfl

variable {s s' : EventStream C}

theorem delta_grows {c : SinkCall}
    (h : s.delta draws c = .ok s') : Grows draws s s' := by
  cases c with
  | onReasoning text =>
    change s.reasoningDelta draws text = .ok s' at h
    unfold reasoningDelta at h
    obtain ⟨-, h⟩ := guard_ok.mp h
    split at h
    · cases h
      exact Grows.refl s
    · cases h
      exact (ensureReasoning_grows s).trans (grows_event rfl rfl rfl)
  | onContent text =>
    change s.contentDelta draws text = .ok s' at h
    unfold contentDelta at h
    obtain ⟨-, h⟩ := guard_ok.mp h
    split at h
    · cases h
      exact Grows.refl s
    · cases h
      exact ((closeReasoning_grows s _ _).trans
        (ensureMessage_grows _)).trans (grows_event rfl rfl rfl)

theorem deltas_grow (calls : List SinkCall)
    (h : calls.foldlM (delta draws) s = .ok s') : Grows draws s s' := by
  induction calls generalizing s with
  | nil =>
    cases h
    exact Grows.refl _
  | cons c rest ih =>
    rw [foldlM_cons] at h
    obtain ⟨s₁, hc, h⟩ := bind_ok.mp h
    exact (delta_grows hc).trans (ih h)

theorem finishText_grows
    (h : s.finishText text = .ok s') : Grows draws s s' := by
  unfold finishText at h
  split at h
  · cases h
    exact Grows.refl s
  · obtain ⟨-, h⟩ := guard_ok.mp h
    dsimp only at h
    split at h
    · cases h
      exact Grows.refl s
    · cases h
      exact grows_event rfl rfl rfl

theorem finishCalls_grow (calls : List ToolCall) (s : EventStream C) :
    Grows draws s (calls.foldl (finishCall draws) s) := by
  induction calls generalizing s with
  | nil => exact Grows.refl s
  | cons call rest ih =>
    have hone : Grows draws s (s.finishCall draws call) := by
      apply grows_events
      · rfl
      · rfl
      · exact .inl rfl
    exact hone.trans (ih _)

variable {built : BuiltResponse C} {outcome : GenerationOutcome}

/-- `finish` keeps writing, and lays the items out with the ids it has. -/
theorem finish_grows {now : Int}
    (h : s.finish draws now outcome = .ok (built, s')) :
    Grows draws s s'
      ∧ built = buildResponse draws s'.drawn s'.common now outcome
        s'.ids := by
  unfold finish at h
  obtain ⟨-, h⟩ := guard_ok.mp h
  cases hmessage : finishMessage draws (finishReasoning draws
      { s with finishBuilt := true } outcome) outcome with
  | error e =>
    dsimp only at h
    rw [hmessage] at h
    cases h
  | ok s₁ =>
    dsimp only at h
    rw [hmessage] at h
    cases h
    refine ⟨?_, rfl⟩
    have hbegin : Grows draws s { s with finishBuilt := true } :=
      ⟨id, prefix_refl _, id⟩
    have hreasoning : Grows draws { s with finishBuilt := true }
        (finishReasoning draws { s with finishBuilt := true }
          outcome) := by
      unfold finishReasoning
      dsimp only
      split
      · refine Grows.trans ?_ (closeReasoning_grows _ _ _)
        exact (ensureReasoning_grows _).trans (grows_event rfl rfl rfl)
      · exact closeReasoning_grows _ _ _
    have htext : Grows draws (finishReasoning draws
        { s with finishBuilt := true } outcome) s₁ := by
      unfold finishMessage at hmessage
      split at hmessage
      · cases hrest : (ensureMessage draws (finishReasoning draws
            { s with finishBuilt := true } outcome)).finishText
              outcome.text with
        | error e =>
          rw [hrest] at hmessage
          cases hmessage
        | ok s₂ =>
          rw [hrest] at hmessage
          cases hmessage
          exact ((ensureMessage_grows _).trans
            (finishText_grows hrest)).trans (closeMessage_grows _ _ _)
      · cases hmessage
        exact Grows.refl _
    exact ((hbegin.trans hreasoning).trans htext).trans
      (finishCalls_grow outcome.toolCalls s₁)

/-- Items that are all done agree with the response of the same items. -/
theorem Closed.agrees {ts : List Trace}
    (h : Closed common ts s) (hnumbered : Numbered s.written s.sequence)
    (hitems : built.body.output = ts.map Trace.item) :
    ∃ s', s.terminal built = .ok s' ∧ StreamAgrees s'.written built.body := by
  have hready : ¬ (!s.finishBuilt || s.terminalEmitted) = true := by
    rw [h.finished, h.running]
    exact false_ne_true
  have hbodies : (event { s with terminalEmitted := true }
      (.terminal (terminalType built.body.status)
        built.body)).written.map Event.body
      = headEvents common ++ (traceEvents 0 ts
        ++ [.terminal (terminalType built.body.status) built.body]) := by
    rw [event_eq_events, events_bodies]
    show s.written.map Event.body ++ _ = _
    rw [h.bodies, append_assoc]
  have hindexed : ∀ (us : List Trace) (j : Nat),
      ∀ e ∈ traceEvents (C := C) j us, ∀ i, e.outputIndex = some i →
        ∃ n : Nat, i = n ∧ n < j + us.length := by
    intro us
    induction us with
    | nil =>
      intro j e he
      cases he
    | cons u us ih =>
      intro j e he i hi
      rw [length_cons]
      rcases mem_append.mp he with hin | hin
      · rw [u.events_index j e hin] at hi
        exact ⟨j, (Option.some.inj hi).symm, by omega⟩
      · obtain ⟨n, hn, hlt⟩ := ih (j + 1) e hin i hi
        exact ⟨n, hn, by omega⟩
  unfold terminal
  rw [if_neg hready]
  refine ⟨_, rfl, ?_, ⟨s.written, s.sequence, _, rfl⟩, ?_, ?_⟩
  · exact (events_numbered (s := { s with terminalEmitted := true })
      hnumbered [_]).1
  · intro e he i hi
    rw [hitems, length_map]
    have hmem : e.body ∈ (event { s with terminalEmitted := true }
        (.terminal (terminalType built.body.status)
          built.body)).written.map Event.body :=
      mem_map.mpr ⟨e, he, rfl⟩
    rw [hbodies] at hmem
    rcases mem_append.mp hmem with hhead | hrest
    · unfold headEvents at hhead
      rcases mem_cons.mp hhead with heq | hhead
      · rw [heq] at hi
        cases hi
      · rw [mem_singleton.mp hhead] at hi
        cases hi
    · rcases mem_append.mp hrest with htrace | hlast
      · obtain ⟨n, hn, hlt⟩ := hindexed ts 0 e.body htrace i hi
        exact ⟨n, hn, by omega⟩
      · rw [mem_singleton.mp hlast] at hi
        cases hi
  · intro n item hitem
    rw [hitems, getElem?_map, Option.map_eq_some_iff] at hitem
    obtain ⟨t, ht, rfl⟩ := hitem
    have hfilter := traceEvents_filter (C := C) ts 0 n
    rw [zero_add, ht] at hfilter
    rw [hbodies, filter_append, filter_append, hfilter]
    have hhead : (headEvents common).filter
        (fun e => e.outputIndex = some (n : Int)) = [] := rfl
    have hlast : [EventBody.terminal (terminalType built.body.status)
        built.body].filter (fun e => e.outputIndex = some (n : Int)) = [] := rfl
    rw [hhead, hlast, nil_append, append_nil]
    exact t.streamed n

-- ============ out of order

/-- A message that took the first index is not the reasoning item there. -/
theorem StreamAgrees.first_id {events : List (Event C)}
    {response : Response C} (h : StreamAgrees events response)
    {item added : OutputItem} (hitem : response.output[0]? = some item)
    (hadded : EventBody.outputItemAdded 0 added
      ∈ events.map Event.body) : added.id = item.id := by
  obtain ⟨first, body, heq, hid, hbody, -⟩ := h.items 0 item hitem
  have hin : EventBody.outputItemAdded 0 added
      ∈ (events.map Event.body).filter
        (fun e => e.outputIndex = some ((0 : Nat) : Int)) :=
    mem_filter.mpr ⟨hadded, rfl⟩
  rw [heq] at hin
  rcases mem_cons.mp hin with hfirst | hrest
  · injection hfirst with _ hsame
    rw [hsame]
    exact hid
  · rcases mem_append.mp hrest with hmid | hdone
    · cases (hbody _ hmid).1
    · cases mem_singleton.mp hdone

/-- Nothing about an item follows its end. -/
theorem StreamAgrees.done_last {events : List (Event C)}
    {response : Response C} (h : StreamAgrees events response)
    {item done : OutputItem} (hitem : response.output[0]? = some item)
    {before after : List (EventBody C)}
    (hdone : events.map Event.body = before ++ .outputItemDone 0 done :: after) :
    ∀ e ∈ after, e.outputIndex ≠ some 0 := by
  intro e he hindex
  obtain ⟨first, body, heq, -, hbody, -⟩ := h.items 0 item hitem
  rw [hdone, filter_append, filter_cons_of_pos (by rfl)] at heq
  have hlater : e ∈ after.filter
      (fun e => e.outputIndex = some ((0 : Nat) : Int)) :=
    mem_filter.mpr ⟨he, by rw [hindex]; rfl⟩
  -- the end is among the events before the last
  have hfront : EventBody.outputItemDone 0 done
      ∈ EventBody.outputItemAdded ((0 : Nat) : Int) first :: body := by
    have hne : after.filter
        (fun e => e.outputIndex = some ((0 : Nat) : Int)) ≠ [] :=
      ne_nil_of_mem hlater
    obtain ⟨front, last, hsplit⟩ :=
      eq_nil_or_concat _ |>.resolve_left hne
    rw [hsplit, concat_eq_append, ← cons_append,
      ← cons_append, ← append_assoc] at heq
    have hinit := (append_inj' heq rfl).1
    rw [← hinit]
    exact mem_append_right _ (.head _)
  rcases mem_cons.mp hfront with hfirst | hin
  · cases hfirst
  · cases (hbody _ hin).1

/-- Reasoning comes first in a response that has some, under an id of its
kind. -/
theorem outputItems_first {ids : ItemIds}
    (drawn : Nat) (hne : outcome.reasoning ≠ [])
    (hid : ids.reasoning = [] ∨ ∃ k, ids.reasoning = randomId draws k "rs") :
    ∃ item k, (outputItems draws drawn ids outcome)[0]? = some item
      ∧ item.id = randomId draws k "rs" := by
  unfold outputItems
  rw [if_neg (by simpa using hne)]
  refine ⟨.reasoning (idOr draws drawn "rs" ids.reasoning).1
    (reasoningStatus outcome) [outcome.reasoning], ?_⟩
  unfold idOr
  rcases hid with hnone | ⟨k, hk⟩
  · refine ⟨drawn, ?_, ?_⟩
    · rw [hnone]
      rfl
    · rw [hnone]
      rfl
  · have hsome : ids.reasoning.isEmpty = false := by
      rw [hk]
      exact List.isEmpty_eq_false_iff.mpr (randomId_ne_nil draws k "rs")
    refine ⟨k, ?_, ?_⟩
    · rw [hsome]
      rfl
    · rw [hsome]
      exact hk

theorem randomId_kinds (j k : Nat) :
    randomId draws j "msg" ≠ randomId draws k "rs" := by
  intro heq
  have hfirst := congrArg head? heq
  cases hfirst

/-- A reasoning delta after content leaves a stream that agrees with no
response. -/
theorem reasoning_after_content {rs cs : List Bytes} {r : Bytes}
    {s s₁ s' : EventStream C} {now : Int} (hcs : cs ≠ []) (hr : r ≠ [])
    (h : Streamed draws common rs cs s)
    (hkind : s.ids.reasoning = [] ∨ ∃ k, s.ids.reasoning = randomId draws k "rs")
    (hdelta : s.reasoningDelta draws r = .ok s₁) (hgrows : Grows draws s₁ s')
    (hbuilt : built = buildResponse draws s'.drawn s'.common now outcome
      s'.ids) (hne : outcome.reasoning ≠ []) (events : List (Event C))
    (hevents : s'.written.map Event.body <+: events.map Event.body) :
    ¬ StreamAgrees events built.body := by
  intro hagrees
  have hbodies := h.bodies
  have hfirst : Grows draws s s₁ :=
    delta_grows (c := .onReasoning r) hdelta
  obtain ⟨item, k, hitem, hid⟩ := outputItems_first s'.drawn hne
    (hgrows.reasoningId (hfirst.reasoningId hkind))
  have houtput : built.body.output[0]? = some item := by
    rw [hbuilt]
    exact hitem
  by_cases hrs : rs = []
  · -- the message stands at the first index
    subst hrs
    obtain ⟨j, hj⟩ := h.messageId hcs
    have hadded : EventBody.outputItemAdded 0
        (.message s.ids.message .inProgress []) ∈ events.map Event.body := by
      refine (hfirst.written.trans (hgrows.written.trans hevents)).subset ?_
      rw [hbodies, reasoningBodies, if_pos rfl, messagePart, if_neg hcs]
      exact mem_append_right _ (.head _)
    have hsame := hagrees.first_id houtput hadded
    rw [hid] at hsame
    exact randomId_kinds j k (hj.symm.trans hsame)
  · -- the reasoning item is done, and another delta of it follows
    have hstarted : s.ensureReasoning draws = s := by
      unfold ensureReasoning
      rw [if_pos (h.reasoningStarted.mpr hrs)]
    have hs₁ : s₁.written.map Event.body = s.written.map Event.body
        ++ [.textDelta .reasoningText s.ids.reasoning 0 0 r] := by
      unfold reasoningDelta at hdelta
      rw [if_neg (by rw [h.started, h.unfinished]; exact false_ne_true),
        if_neg (by simpa using hr), hstarted] at hdelta
      dsimp only at hdelta
      rw [h.reasoningIndex hrs] at hdelta
      cases hdelta
      rw [event_eq_events, events_bodies]
    obtain ⟨rest, hrest⟩ := hgrows.written.trans hevents
    have hsplit : events.map Event.body
        = (headEvents common
            ++ (Trace.openText .reasoningText
                (.reasoning s.ids.reasoning .inProgress []) rs 0
              ++ [.textDone .reasoningText s.ids.reasoning 0 0 rs.flatten,
                .contentPartDone s.ids.reasoning 0 0 .reasoningText rs.flatten]))
          ++ .outputItemDone 0 (.reasoning s.ids.reasoning .completed
              [rs.flatten])
            :: (messagePart s.ids.message rs cs
              ++ .textDelta .reasoningText s.ids.reasoning 0 0 r
                :: rest) := by
      rw [← hrest, hs₁, hbodies, reasoningBodies, if_neg hrs, if_neg hcs]
      simp [Trace.events, Trace.closeText, OutputItem.id]
    exact hagrees.done_last houtput hsplit
      (.textDelta .reasoningText s.ids.reasoning 0 0 r)
      (mem_append_right _ (.head _)) rfl

-- ============ the stream

theorem reasoningOf_inOrder (rs cs : List Bytes) :
    reasoningOf (inOrder rs cs) = rs.flatten := by
  unfold inOrder
  rw [reasoningOf_append]
  have hcs : reasoningOf (cs.map .onContent) = [] := by
    unfold reasoningOf
    rw [flatMap_map]
    simp
  rw [hcs, append_nil]
  unfold reasoningOf
  rw [flatMap_map]
  exact flatMap_id'

theorem contentOf_inOrder (rs cs : List Bytes) :
    contentOf (inOrder rs cs) = cs.flatten := by
  unfold inOrder
  rw [contentOf_append]
  have hrs : contentOf (rs.map .onReasoning) = [] := by
    unfold contentOf
    rw [flatMap_map]
    simp
  rw [hrs, nil_append]
  unfold contentOf
  rw [flatMap_map]
  exact flatMap_id'

/-- Deltas out of order leave no stream that agrees with its response. -/
theorem interleaved_disagrees (draws : Nat → UInt64) (common : C)
    (now : Int) {deltas : List SinkCall} (hne : Substantial deltas)
    (hreasoning : reasoningOf deltas = outcome.reasoning)
    (hinter : Interleaved deltas) :
    ¬ ∃ events response, streamResponse draws common now deltas outcome
        = .ok (events, response)
        ∧ StreamAgrees events response := by
  obtain ⟨s₀, hstart, h₀⟩ := @start_streamed C draws common
  have hbegin : s₀.ids.reasoning = []
      ∨ ∃ k, s₀.ids.reasoning = randomId draws k "rs" := by
    cases hstart
    exact .inl rfl
  unfold streamResponse
  rw [hstart]
  rintro ⟨events, response, hrun, hagrees⟩
  obtain ⟨rs, cs, r, after, hcs, rfl⟩ :=
    (interleaved_iff_not_inOrder deltas).mp hinter
  have hr : r ≠ [] :=
    hne (.onReasoning r) (mem_append_right _ (.head _))
  obtain ⟨s₁, hrun₁, h₁⟩ := inOrder_streamed rs cs
    (fun c hc => hne c (mem_append_left _ hc)) h₀
  have hbound : outcome.reasoning ≠ [] := by
    rw [← hreasoning, reasoningOf_append]
    intro hnil
    exact hr (append_eq_nil_iff.mp (append_eq_nil_iff.mp hnil).2).1
  change ((inOrder rs cs ++ .onReasoning r :: after).foldlM (delta draws)
    s₀ >>= _) = _ at hrun
  rw [foldlM_append, hrun₁] at hrun
  change (((s₁.reasoningDelta draws r) >>= fun s =>
    after.foldlM (delta draws) s) >>= _) = _ at hrun
  cases hdelta : s₁.reasoningDelta draws r with
  | error e =>
    rw [hdelta] at hrun
    cases hrun
  | ok s₂ =>
    rw [hdelta] at hrun
    change (after.foldlM (delta draws) s₂ >>= _) = _ at hrun
    obtain ⟨s₃, hafter, hrun⟩ := bind_ok.mp hrun
    change (s₃.finish draws now outcome >>= _) = _ at hrun
    cases hfinish : s₃.finish draws now outcome with
    | error e =>
      rw [hfinish] at hrun
      cases hrun
    | ok p =>
      obtain ⟨built, s₄⟩ := p
      rw [hfinish] at hrun
      change (s₄.terminal built >>= _) = _ at hrun
      obtain ⟨s₅, hterminal, hrun⟩ := bind_ok.mp hrun
      cases hrun
      obtain ⟨hgrows, hbuilt⟩ := finish_grows hfinish
      refine reasoning_after_content hcs hr h₁
        ((deltas_grow _ hrun₁).reasoningId hbegin) hdelta
        ((deltas_grow after hafter).trans hgrows) hbuilt
        hbound s₅.written ?_ hagrees
      unfold terminal at hterminal
      obtain ⟨-, hterminal⟩ := guard_ok.mp hterminal
      cases hterminal
      rw [event_eq_events, events_bodies]
      exact prefix_append _ _

/-- A stream whose deltas carry the outcome agrees with its response
exactly when no reasoning delta follows a content delta. -/
theorem responses_stream_iff (draws : Nat → UInt64) (common : C) (now : Int)
    (deltas : List SinkCall) (outcome : GenerationOutcome)
    (hne : Substantial deltas)
    (hreasoning : reasoningOf deltas = outcome.reasoning)
    (hcontent : contentOf deltas <+: outcome.text) :
    (∃ events response, streamResponse draws common now deltas outcome
          = .ok (events, response)
        ∧ StreamAgrees events response)
      ↔ ¬ Interleaved deltas := by
  constructor
  · intro hagrees hinter
    exact interleaved_disagrees draws common now hne hreasoning hinter hagrees
  · intro hinter
    obtain ⟨s₀, hstart, h₀⟩ := @start_streamed C draws common
    have hbegin : Numbered s₀.written s₀.sequence := by
      cases hstart
      exact ⟨rfl, rfl⟩
    rcases order_cases deltas with ⟨rs, cs, rfl⟩ | hsplit
    · rw [reasoningOf_inOrder] at hreasoning
      rw [contentOf_inOrder] at hcontent
      obtain ⟨s₁, hrun₁, h₁⟩ := inOrder_streamed rs cs hne h₀
      obtain ⟨built, s₂, ts, hfinish, hitems, hclosed⟩ :=
        finish_closed h₁ hne hreasoning hcontent now
      have hnumbered : Numbered s₂.written s₂.sequence :=
        ((deltas_grow _ hrun₁).trans (finish_grows hfinish).1).numbered hbegin
      obtain ⟨s₃, hterminal, hagrees⟩ := hclosed.agrees hnumbered hitems
      refine ⟨s₃.written, built.body, ?_, hagrees⟩
      unfold streamResponse
      rw [hstart]
      show ((inOrder rs cs).foldlM (delta draws) s₀ >>= _) = _
      rw [hrun₁]
      show (s₁.finish draws now outcome >>= _) = _
      rw [hfinish]
      show (s₂.terminal built >>= _) = _
      rw [hterminal]
      rfl
    · exact absurd ((interleaved_iff_not_inOrder deltas).mpr hsplit) hinter

/-- An outcome with reasoning and a text. -/
def sampleOutcome (reasoning text : String) : GenerationOutcome where
  text := ascii text
  reasoning := ascii reasoning
  toolCalls := []
  promptTokens := 8
  completionTokens := 4
  reasoningTokens := 2
  streamedContentBytes := 0
  finishReason := .stopToken

/-- The stream of the source's own test: a thought, half of the answer, and
the rest at the end. -/
theorem responses_stream_thought :
    ∃ events response, streamResponse (fun _ => 0) () 123
        [.onReasoning (ascii "thought"), .onContent (ascii "ans")]
        (sampleOutcome "thought" "answer") = .ok (events, response)
      ∧ StreamAgrees events response := by
  refine (responses_stream_iff (fun _ => 0) () 123
    [.onReasoning (ascii "thought"), .onContent (ascii "ans")]
    (sampleOutcome "thought" "answer") ?_ ?_ ?_).mpr ?_
  · intro c hc
    rcases mem_cons.mp hc with rfl | hc
    · exact cons_ne_nil _ _
    · obtain rfl := mem_singleton.mp hc
      exact cons_ne_nil _ _
  · rfl
  · exact ⟨ascii "wer", rfl⟩
  · exact inOrder_not_interleaved [ascii "thought"] [ascii "ans"]

/-- An answer and then a thought: the message is announced at the index
where the response has the reasoning. -/
theorem responses_stream_answer_first :
    let deltas := [SinkCall.onContent (ascii "a"), .onReasoning (ascii "b")]
    Substantial deltas ∧ reasoningOf deltas = (sampleOutcome "b" "a").reasoning
      ∧ contentOf deltas <+: (sampleOutcome "b" "a").text
      ∧ ¬ ∃ events response, streamResponse (fun _ => 0) () 123 deltas
            (sampleOutcome "b" "a") = .ok (events, response)
          ∧ StreamAgrees events response := by
  refine ⟨?_, rfl, prefix_refl _, ?_⟩
  · intro c hc
    rcases mem_cons.mp hc with rfl | hc
    · exact cons_ne_nil _ _
    · obtain rfl := mem_singleton.mp hc
      exact cons_ne_nil _ _
  · refine interleaved_disagrees (fun _ => 0) () 123 ?_ rfl
      ⟨[], ascii "a", [], ascii "b", [], rfl⟩
    intro c hc
    rcases mem_cons.mp hc with rfl | hc
    · exact cons_ne_nil _ _
    · obtain rfl := mem_singleton.mp hc
      exact cons_ne_nil _ _

end Ginfer.Serve.Responses
