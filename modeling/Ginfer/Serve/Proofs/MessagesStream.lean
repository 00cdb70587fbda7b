/-
The message stream keeps the content-block protocol, for one order of
deltas.

While reasoning comes first, at most one block is open: `Streaming` says
which, and what has been written of it. Once a text block is open a
reasoning delta opens a thinking block beside it, and the text block stays
open to the end; two blocks are open at once, which no sequence of blocks
open MessageStream
shows (`openBlocks`). So the protocol is kept exactly when no reasoning is
published after content was shown (`messages_protocol_iff`).
-/
import Ginfer.Serve.MessagesStream
import Ginfer.Serve.Proofs.GenerationService

namespace Ginfer.Serve.Messages

open Ginfer.Lib Ginfer.Frontend MessageStream
open List hiding tail

-- ============ the blocks

theorem blockEvents_append (index : Nat) (a b : List Block) :
    blockEvents index (a ++ b)
      = blockEvents index a ++ blockEvents (index + a.length) b := by
  induction a generalizing index with
  | nil => rfl
  | cons block rest ih =>
    rw [cons_append, length_cons]
    show block.events index ++ blockEvents (index + 1) (rest ++ b) = _
    rw [ih, ← append_assoc, Nat.add_comm rest.length 1, ← Nat.add_assoc]
    rfl

theorem blockEvents_concat (blocks : List Block) (b : Block) :
    blockEvents 0 (blocks ++ [b])
      = blockEvents 0 blocks ++ b.events blocks.length := by
  rw [blockEvents_append, Nat.zero_add]
  congr 1
  exact append_nil _

/-- What is written of a block that is open. -/
def openEvents (index : Nat) : Option Block → List MessageEvent
  | none => []
  | some b =>
    .contentBlockStart index b.content :: b.deltas.map (.contentBlockDelta index)

/-- The stream after some blocks, with at most one open. -/
structure Streaming (head : MessageEvent) (closed : List Block)
    (current : Option Block) (s : MessageStream) : Prop where
  written : s.written = head
    :: (blockEvents 0 closed ++ openEvents closed.length current)
  next : s.nextIndex = (closed.length + current.toList.length : Nat)
  thinking : s.thinkingOpen = true ↔ ∃ ds, current = some (.thinking ds)
  thinkingIndex : s.thinkingOpen = true → s.thinkingIndex = closed.length
  text : s.textOpen = true ↔ ∃ ds, current = some (.text ds)
  textIndex : s.textOpen = true → s.textIndex = closed.length

section

variable {head : MessageEvent} {closed : List Block}
  {current : Option Block} {s : MessageStream}

/-- Nothing is open: a block can be opened. -/
theorem Streaming.opens (h : Streaming head closed none s) :
    Streaming head closed (some (.thinking [])) s.openThinking
      ∧ Streaming head closed (some (.text [])) s.openText := by
  have hthinking : s.thinkingOpen = false := by
    rw [← Bool.not_eq_true, h.thinking]
    exact nofun
  have htext : s.textOpen = false := by
    rw [← Bool.not_eq_true, h.text]
    exact nofun
  have hnext : s.nextIndex = closed.length := by
    rw [h.next]
    simp
  constructor
  · refine ⟨?_, ?_, ?_, ?_, ?_, ?_⟩
    · show s.written ++ [_] = _
      rw [h.written, hnext]
      simp [openEvents, Block.content, Block.deltas]
    · show s.nextIndex + 1 = _
      rw [hnext]
      simp
    · exact ⟨fun _ => ⟨[], rfl⟩, fun _ => rfl⟩
    · exact fun _ => hnext
    · show s.textOpen = true ↔ _
      rw [htext]
      exact ⟨nofun, nofun⟩
    · intro hopen
      rw [show s.textOpen = true from hopen] at htext
      cases htext
  · refine ⟨?_, ?_, ?_, ?_, ?_, ?_⟩
    · show s.written ++ [_] = _
      rw [h.written, hnext]
      simp [openEvents, Block.content, Block.deltas]
    · show s.nextIndex + 1 = _
      rw [hnext]
      simp
    · show s.thinkingOpen = true ↔ _
      rw [hthinking]
      exact ⟨nofun, nofun⟩
    · intro hopen
      rw [show s.thinkingOpen = true from hopen] at hthinking
      cases hthinking
    · exact ⟨fun _ => ⟨[], rfl⟩, fun _ => rfl⟩
    · exact fun _ => hnext

variable {ds : List Bytes}

/-- A delta of the open block. -/
theorem Streaming.thinks (text : Bytes)
    (h : Streaming head closed (some (.thinking ds)) s) :
    Streaming head closed (some (.thinking (ds ++ [text])))
      (s.write (.contentBlockDelta s.thinkingIndex (.thinking text))) := by
  have hopen : s.thinkingOpen = true := h.thinking.mpr ⟨ds, rfl⟩
  refine ⟨?_, h.next, ?_, h.thinkingIndex, ?_, h.textIndex⟩
  · show s.written ++ [_] = _
    rw [h.written, h.thinkingIndex hopen]
    simp [openEvents, Block.content, Block.deltas]
  · exact ⟨fun _ => ⟨_, rfl⟩, fun _ => hopen⟩
  · refine h.text.trans ⟨?_, ?_⟩
    · exact nofun
    · exact nofun

theorem Streaming.told (text : Bytes)
    (h : Streaming head closed (some (.text ds)) s) :
    Streaming head closed (some (.text (ds ++ [text])))
      (s.write (.contentBlockDelta s.textIndex (.text text))) := by
  have hopen : s.textOpen = true := h.text.mpr ⟨ds, rfl⟩
  refine ⟨?_, h.next, ?_, h.thinkingIndex, ?_, h.textIndex⟩
  · show s.written ++ [_] = _
    rw [h.written, h.textIndex hopen]
    simp [openEvents, Block.content, Block.deltas]
  · refine h.thinking.trans ⟨?_, ?_⟩
    · exact nofun
    · exact nofun
  · exact ⟨fun _ => ⟨_, rfl⟩, fun _ => hopen⟩

/-- The events of a block are those of the open block and its stop. -/
theorem openEvents_stop (index : Nat) (b : Block) :
    openEvents index (some b) ++ [.contentBlockStop index] = b.events index := rfl

theorem Streaming.closeThinking
    (h : Streaming head closed (some (.thinking ds)) s) :
    Streaming head (closed ++ [.thinking ds]) none s.closeThinking := by
  have hopen : s.thinkingOpen = true := h.thinking.mpr ⟨ds, rfl⟩
  have htext : s.textOpen = false := by
    rw [← Bool.not_eq_true, h.text]
    exact nofun
  unfold MessageStream.closeThinking
  rw [if_pos hopen]
  refine ⟨?_, ?_, ?_, nofun, ?_, ?_⟩
  · show s.written ++ [_] = _
    rw [h.written, h.thinkingIndex hopen, blockEvents_concat,
      ← openEvents_stop, cons_append, append_assoc]
    simp [openEvents]
  · show s.nextIndex = _
    rw [h.next]
    simp
  · exact ⟨nofun, nofun⟩
  · show s.textOpen = true ↔ _
    rw [htext]
    exact ⟨nofun, nofun⟩
  · intro hno
    rw [show s.textOpen = true from hno] at htext
    cases htext

theorem Streaming.closeText (h : Streaming head closed (some (.text ds)) s) :
    Streaming head (closed ++ [.text ds]) none s.closeText := by
  have hopen : s.textOpen = true := h.text.mpr ⟨ds, rfl⟩
  have hthinking : s.thinkingOpen = false := by
    rw [← Bool.not_eq_true, h.thinking]
    exact nofun
  unfold MessageStream.closeText
  rw [if_pos hopen]
  refine ⟨?_, ?_, ?_, ?_, ?_, nofun⟩
  · show s.written ++ [_] = _
    rw [h.written, h.textIndex hopen, blockEvents_concat,
      ← openEvents_stop, cons_append, append_assoc]
    simp [openEvents]
  · show s.nextIndex = _
    rw [h.next]
    simp
  · show s.thinkingOpen = true ↔ _
    rw [hthinking]
    exact ⟨nofun, nofun⟩
  · intro hno
    rw [show s.thinkingOpen = true from hno] at hthinking
    cases hthinking
  · exact ⟨nofun, nofun⟩

end

-- ============ the calls

/-- What some blocks say. -/
structure Says (blocks : List Block) (reasoning content : Bytes)
    (calls : List ToolCall) : Prop where
  reasoning : blocks.flatMap Block.thinkingText = reasoning
  content : blocks.flatMap Block.contentText = content
  calls : blocks.filterMap Block.toolCall = calls

theorem Says.append {a b : List Block} {reasoning reasoning' content
    content' : Bytes} {calls calls' : List ToolCall}
    (ha : Says a reasoning content calls)
    (hb : Says b reasoning' content' calls') :
    Says (a ++ b) (reasoning ++ reasoning') (content ++ content')
      (calls ++ calls') := by
  constructor
  · rw [flatMap_append, ha.reasoning, hb.reasoning]
  · rw [flatMap_append, ha.content, hb.content]
  · rw [filterMap_append, ha.calls, hb.calls]

theorem says_nil : Says [] [] [] [] := ⟨rfl, rfl, rfl⟩

theorem says_thinking (ds : List Bytes) : Says [.thinking ds] ds.flatten [] [] :=
  ⟨append_nil _, rfl, rfl⟩

theorem says_text (ds : List Bytes) : Says [.text ds] [] ds.flatten [] :=
  ⟨rfl, append_nil _, rfl⟩

section

variable {head : MessageEvent} {closed : List Block}
  {current : Option Block} {s : MessageStream} {reasoning content : Bytes}

variable (text : Bytes) (h : Streaming head closed current s)
  (htold : Says (closed ++ current.toList) reasoning content [])

include text h htold

/-- A reasoning call while no text block is open. -/
theorem Streaming.onReasoning
    (hcurrent : current = none ∨ ∃ ds, current = some (.thinking ds)) :
    ∃ current', (∃ ds, current' = some (Block.thinking ds))
      ∧ Streaming head closed current' (s.onReasoning text)
      ∧ Says (closed ++ current'.toList) (reasoning ++ text) content [] := by
  unfold MessageStream.onReasoning
  rcases hcurrent with rfl | ⟨ds, rfl⟩
  · have hclosed : s.thinkingOpen = false := by
      rw [← Bool.not_eq_true, h.thinking]
      exact nofun
    refine ⟨some (.thinking ([] ++ [text])), ⟨_, rfl⟩, ?_, ?_⟩
    · rw [hclosed]
      exact h.opens.1.thinks text
    · have hboth := htold.append (says_thinking [text])
      simpa using hboth
  · refine ⟨some (.thinking (ds ++ [text])), ⟨_, rfl⟩, ?_, ?_⟩
    · rw [if_pos (h.thinking.mpr ⟨ds, rfl⟩)]
      exact h.thinks text
    · obtain ⟨hr, hc, ht⟩ := htold
      constructor
      · rw [← hr]
        simp [Block.thinkingText]
      · rw [← hc]
        simp [Block.contentText]
      · rw [← ht]
        rw [filterMap_append, filterMap_append]
        rfl

/-- A content call. -/
theorem Streaming.onContent
    (hcurrent : current = none ∨ (∃ ds, current = some (.thinking ds))
      ∨ ∃ ds, current = some (.text ds)) :
    ∃ closed' current', (∃ ds, current' = some (Block.text ds))
      ∧ Streaming head closed' current' (s.onContent text)
      ∧ Says (closed' ++ current'.toList) reasoning (content ++ text)
        [] := by
  -- what follows once no thinking block is open
  have hsaid : ∀ {closed' : List Block} {s' : MessageStream},
      Streaming head closed' none s' → Says closed' reasoning content [] →
      ∃ current', (∃ ds, current' = some (Block.text ds))
        ∧ Streaming head closed' current'
          ((if s'.textOpen then s' else s'.openText).write
            (.contentBlockDelta (if s'.textOpen then s'
              else s'.openText).textIndex (.text text)))
        ∧ Says (closed' ++ current'.toList) reasoning (content ++ text)
            [] := by
    intro closed' s' h' htold'
    have hno : s'.textOpen = false := by
      rw [← Bool.not_eq_true, h'.text]
      exact nofun
    refine ⟨some (.text ([] ++ [text])), ⟨_, rfl⟩, ?_, ?_⟩
    · rw [hno]
      exact h'.opens.2.told text
    · have hboth := htold'.append (says_text [text])
      simpa using hboth
  have hsame (hno : ¬ ∃ ds, current = some (.thinking ds)) :
      s.closeThinking = s := by
    rw [← h.thinking, Bool.not_eq_true] at hno
    unfold MessageStream.closeThinking
    rw [hno]
    rfl
  unfold MessageStream.onContent
  rcases hcurrent with rfl | ⟨ds, rfl⟩ | ⟨ds, rfl⟩
  · rw [hsame nofun]
    exact ⟨closed, hsaid h (by simpa using htold)⟩
  · exact ⟨closed ++ [.thinking ds], hsaid h.closeThinking htold⟩
  · rw [hsame nofun]
    refine ⟨closed, some (.text (ds ++ [text])), ⟨_, rfl⟩, ?_, ?_⟩
    · dsimp only
      rw [if_pos (h.text.mpr ⟨ds, rfl⟩)]
      exact h.told text
    · obtain ⟨hr, hc, ht⟩ := htold
      constructor
      · rw [← hr]
        simp [Block.thinkingText]
      · rw [← hc]
        simp [Block.contentText]
      · rw [← ht]
        rw [filterMap_append, filterMap_append]
        rfl

omit text h htold

end

/-- Calls in order keep at most one block open. -/
theorem calls_streaming {head : MessageEvent} :
    ∀ (calls : List SinkCall) {closed : List Block} {current : Option Block}
      {s : MessageStream} {reasoning content : Bytes},
      Streaming head closed current s →
      Says (closed ++ current.toList) reasoning content [] →
      (current = none ∨ (∃ ds, current = some (.thinking ds))
        ∨ (∃ ds, current = some (.text ds))
        ∧ ∀ text, SinkCall.onReasoning text ∉ calls) →
      ¬ Interleaved calls →
      ∃ closed' current', (current' = none
        ∨ (∃ ds, current' = some (Block.thinking ds))
        ∨ ∃ ds, current' = some (Block.text ds))
        ∧ Streaming head closed' current' (calls.foldl call s)
        ∧ Says (closed' ++ current'.toList) (reasoning ++ reasoningOf calls)
        (content ++ contentOf calls) [] := by
  intro calls
  induction calls with
  | nil =>
    intro closed current s reasoning content h htold hcurrent _
    refine ⟨closed, current, ?_, h, ?_⟩
    · rcases hcurrent with hnone | hthinking | ⟨htext, -⟩
      · exact Or.inl hnone
      · exact Or.inr (Or.inl hthinking)
      · exact Or.inr (Or.inr htext)
    · simpa [reasoningOf, contentOf] using htold
  | cons c rest ih =>
    intro closed current s reasoning content h htold hcurrent hordered
    have hrest : ¬ Interleaved rest := by
      rintro ⟨before, text, between, r, after, heq⟩
      exact hordered ⟨c :: before, text, between, r, after, by
        rw [heq, cons_append]⟩
    rw [foldl_cons]
    cases c with
    | onReasoning text =>
      have hallowed : current = none
          ∨ ∃ ds, current = some (.thinking ds) := by
        rcases hcurrent with hnone | hthinking | ⟨-, hno⟩
        · exact Or.inl hnone
        · exact Or.inr hthinking
        · exact absurd mem_cons_self (hno text)
      obtain ⟨current', hthinking, h', htold'⟩ :=
        h.onReasoning text htold hallowed
      obtain ⟨closed'', current'', hkind, h'', htold''⟩ :=
        ih h' htold' (Or.inr (Or.inl hthinking)) hrest
      refine ⟨closed'', current'', hkind, h'', ?_⟩
      rw [append_assoc] at htold''
      exact htold''
    | onContent text =>
      have hallowed : current = none ∨ (∃ ds, current = some (.thinking ds))
          ∨ ∃ ds, current = some (.text ds) := by
        rcases hcurrent with hnone | hthinking | ⟨htext, -⟩
        · exact Or.inl hnone
        · exact Or.inr (Or.inl hthinking)
        · exact Or.inr (Or.inr htext)
      obtain ⟨closed', current', htext, h', htold'⟩ :=
        h.onContent text htold hallowed
      -- a reasoning call after this one would be out of order
      have hno : ∀ r, SinkCall.onReasoning r ∉ rest := by
        intro r hmem
        obtain ⟨between, after, heq⟩ := append_of_mem hmem
        exact hordered ⟨[], text, between, r, after, by rw [heq]; rfl⟩
      obtain ⟨closed'', current'', hkind, h'', htold''⟩ :=
        ih h' htold' (Or.inr (Or.inr ⟨htext, hno⟩)) hrest
      refine ⟨closed'', current'', hkind, h'', ?_⟩
      rw [append_assoc] at htold''
      exact htold''

-- ============ the tail

section

variable {head : MessageEvent} {closed : List Block}
  {current : Option Block} {s : MessageStream}

/-- Whatever is open is closed. -/
theorem Streaming.close (h : Streaming head closed current s)
    (hkind : current = none ∨ (∃ ds, current = some (.thinking ds))
      ∨ ∃ ds, current = some (.text ds)) :
    Streaming head (closed ++ current.toList) none
      s.closeThinking.closeText := by
  have hthinking : (¬ ∃ ds, current = some (.thinking ds)) →
      s.closeThinking = s := by
    intro hno
    unfold MessageStream.closeThinking
    rw [if_neg (fun hopen => hno (h.thinking.mp hopen))]
  have htext : ∀ {closed' : List Block} {s' : MessageStream},
      Streaming head closed' none s' → s'.closeText = s' := by
    intro closed' s' h'
    unfold MessageStream.closeText
    rw [if_neg]
    intro hopen
    obtain ⟨_, hno⟩ := h'.text.mp hopen
    cases hno
  rcases hkind with rfl | ⟨ds, rfl⟩ | ⟨ds, rfl⟩
  · rw [hthinking nofun, htext h]
    simpa using h
  · rw [htext h.closeThinking]
    exact h.closeThinking
  · rw [hthinking (nofun)]
    exact h.closeText

/-- A block is written at once. -/
theorem Streaming.wholeBlock (b : Block) (h : Streaming head closed none s) :
    Streaming head (closed ++ [b]) none
      (s.wholeBlock b.content b.deltas) := by
  have hnext : s.nextIndex = closed.length := by
    rw [h.next]
    simp
  refine ⟨?_, ?_, h.thinking, ?_, h.text, ?_⟩
  · show s.written ++ _ = _
    rw [h.written, hnext, blockEvents_concat]
    simp [openEvents, Block.events]
  · show s.nextIndex + 1 = _
    rw [hnext]
    simp
  · intro hopen
    obtain ⟨_, hno⟩ := h.thinking.mp hopen
    cases hno
  · intro hopen
    obtain ⟨_, hno⟩ := h.text.mp hopen
    cases hno

/-- The block of a tool call. -/
def toolUseBlock (call : ToolCall) : Block :=
  .toolUse call.id call.name [call.argumentsJson]

theorem says_toolUse (calls : List ToolCall) :
    Says (calls.map toolUseBlock) [] [] calls := by
  induction calls with
  | nil => exact says_nil
  | cons call rest ih =>
    have hone : Says [toolUseBlock call] [] [] [call] := by
      refine ⟨rfl, rfl, ?_⟩
      show [(⟨call.id, call.name, call.argumentsJson ++ []⟩ : ToolCall)] = _
      rw [append_nil]
    exact hone.append ih

/-- The tool calls, one block each. -/
theorem Streaming.toolBlocks :
    ∀ (calls : List ToolCall) {closed : List Block} {s : MessageStream},
      Streaming head closed none s →
      Streaming head (closed ++ calls.map toolUseBlock) none
        (calls.foldl toolBlock s) := by
  intro calls
  induction calls with
  | nil =>
    intro closed s h
    simpa using h
  | cons call rest ih =>
    intro closed s h
    have hone : Streaming head (closed ++ [toolUseBlock call]) none
        (s.toolBlock call) := h.wholeBlock (toolUseBlock call)
    have hall := ih hone
    rw [append_assoc] at hall
    exact hall

/-- A message has a block: an empty text block when nothing else came. -/
theorem Streaming.someBlock (h : Streaming head closed none s)
    {reasoning content : Bytes} {calls : List ToolCall}
    (htold : Says closed reasoning content calls) :
    ∃ closed', Streaming head closed' none
        (if s.nextIndex = 0 then s.wholeBlock .text [] else s)
      ∧ Says closed' reasoning content calls := by
  by_cases hzero : s.nextIndex = 0
  · rw [if_pos hzero]
    refine ⟨closed ++ [.text []], h.wholeBlock (.text []), ?_⟩
    have hboth := htold.append (says_text [])
    simpa using hboth
  · rw [if_neg hzero]
    exact ⟨closed, h, htold⟩

/-- The whole tail, when all content was streamed. -/
theorem Streaming.tail (toolCapable : Bool) (outcome : GenerationOutcome)
    (h : Streaming head closed current s)
    (hkind : current = none ∨ (∃ ds, current = some (.thinking ds))
      ∨ ∃ ds, current = some (.text ds))
    (htold : Says (closed ++ current.toList) outcome.reasoning outcome.text [])
    (hcalls : toolCapable = false → outcome.toolCalls = []) :
    ∃ blocks, (s.tail toolCapable outcome []).written
        = head :: (blockEvents 0 blocks
        ++ [.messageDelta (messagesStopReason outcome.finishReason
              (!outcome.toolCalls.isEmpty)) outcome.completionTokens,
            .messageStop])
      ∧ Says blocks outcome.reasoning outcome.text outcome.toolCalls := by
  have hclose := h.close hkind
  -- the calls, of which there are none for a request without tools
  obtain ⟨s₁, hs₁, blocks₁, hstream₁, htold₁⟩ : ∃ s₁, s₁
      = (if toolCapable then
          outcome.toolCalls.foldl toolBlock s.closeThinking.closeText
        else s.closeThinking.closeText)
      ∧ ∃ blocks, Streaming head blocks none s₁
        ∧ Says blocks outcome.reasoning outcome.text outcome.toolCalls := by
    refine ⟨_, rfl, ?_⟩
    cases hcapable : toolCapable with
    | false =>
      rw [hcalls hcapable]
      exact ⟨_, hclose, htold⟩
    | true =>
      refine ⟨_, hclose.toolBlocks outcome.toolCalls, ?_⟩
      have hboth := htold.append (says_toolUse outcome.toolCalls)
      simpa using hboth
  obtain ⟨blocks, hstream, hsaid⟩ := hstream₁.someBlock htold₁
  refine ⟨blocks, ?_, hsaid⟩
  have hwritten := hstream.written
  rw [hs₁] at hwritten
  unfold MessageStream.tail
  show (_ ++ [_]) ++ [_] = _
  have hshape : ∀ t : MessageStream,
      t.written = head :: (blockEvents 0 blocks ++ []) →
      ∀ e e' : MessageEvent, (t.written ++ [e]) ++ [e']
        = head :: (blockEvents 0 blocks ++ [e, e']) := by
    intro t ht e e'
    rw [ht]
    simp
  exact hshape _ hwritten _ _

end

-- ============ two open blocks

/-- The blocks that are open after some events. -/
def openBlocks (events : List MessageEvent) : Int :=
  (events.map fun
    | .contentBlockStart _ _ => 1
    | .contentBlockStop _ => -1
    | _ => 0).sum

theorem openBlocks_append (a b : List MessageEvent) :
    openBlocks (a ++ b) = openBlocks a + openBlocks b := by
  unfold openBlocks
  rw [map_append, sum_append]

/-- Never more than one. -/
def OneOpen (events : List MessageEvent) : Prop :=
  ∀ n, openBlocks (events.take n) ≤ 1

theorem OneOpen.append {a b : List MessageEvent} (ha : OneOpen a)
    (hzero : openBlocks a = 0) (hb : OneOpen b) : OneOpen (a ++ b) := by
  intro n
  rw [take_append, openBlocks_append]
  by_cases hn : n ≤ a.length
  · rw [Nat.sub_eq_zero_of_le hn, take_zero]
    have hone := ha n
    have hnil : openBlocks [] = 0 := rfl
    omega
  · rw [take_of_length_le (by omega), hzero]
    have hone := hb (n - a.length)
    omega

theorem openBlocks_deltas (index : Int) (ds : List BlockDelta) :
    openBlocks (ds.map (.contentBlockDelta index)) = 0 := by
  induction ds with
  | nil => rfl
  | cons d rest ih =>
    have hcons := openBlocks_append [.contentBlockDelta index d]
      (rest.map (.contentBlockDelta index))
    rw [ih] at hcons
    exact hcons

theorem openBlocks_events (b : Block) (index : Nat) :
    openBlocks (b.events index) = 0 := by
  unfold Block.events
  rw [← singleton_append, openBlocks_append, openBlocks_append,
    openBlocks_deltas]
  rfl

theorem oneOpen_events (b : Block) (index : Nat) :
    OneOpen (b.events index) := by
  intro n
  cases n with
  | zero => exact Int.one_nonneg
  | succ n =>
    unfold Block.events
    rw [take_succ_cons, ← singleton_append, openBlocks_append,
      take_append, openBlocks_append, ← map_take,
      openBlocks_deltas]
    have hstart : openBlocks [.contentBlockStart index b.content] = 1 :=
      rfl
    have hstop : ∀ k, openBlocks
        (take k [.contentBlockStop (index : Int)]) ≤ 0 := by
      intro k
      cases k with
      | zero => exact Int.le_refl 0
      | succ k =>
        rw [take_succ_cons, take_nil]
        exact show (-1 : Int) ≤ 0 by omega
    have hle := hstop (n - (b.deltas.map
      (MessageEvent.contentBlockDelta (index : Int))).length)
    omega

theorem oneOpen_blockEvents (blocks : List Block) (index : Nat) :
    OneOpen (blockEvents index blocks)
      ∧ openBlocks (blockEvents index blocks) = 0 := by
  induction blocks generalizing index with
  | nil =>
    refine ⟨fun n => ?_, rfl⟩
    rw [show blockEvents index [] = [] from rfl, take_nil]
    exact Int.one_nonneg
  | cons b rest ih =>
    obtain ⟨hone, hzero⟩ := ih (index + 1)
    refine ⟨(oneOpen_events b index).append (openBlocks_events b index) hone, ?_⟩
    unfold blockEvents
    rw [openBlocks_append, openBlocks_events, hzero]
    rfl

/-- The protocol has one block open at a time. -/
theorem MessageProtocol.oneOpen {events : List MessageEvent}
    {outcome : GenerationOutcome} (h : MessageProtocol events outcome) :
    OneOpen events := by
  obtain ⟨id, model, inputTokens, blocks, rfl, -⟩ := h
  have hflat : ∀ l : List MessageEvent, (∀ e ∈ l, openBlocks [e] = 0) →
      OneOpen l ∧ openBlocks l = 0 := by
    intro l
    induction l with
    | nil =>
      intro _
      refine ⟨fun n => ?_, rfl⟩
      rw [take_nil]
      exact Int.one_nonneg
    | cons e rest ih =>
      intro hall
      obtain ⟨hone, hzero⟩ :=
        ih fun e' he' => hall e' (mem_cons_of_mem _ he')
      have he := hall e mem_cons_self
      have hsingle : OneOpen [e] := by
        intro n
        cases n with
        | zero => exact Int.one_nonneg
        | succ n =>
          rw [take_succ_cons, take_nil, he]
          exact Int.one_nonneg
      refine ⟨hsingle.append he hone, ?_⟩
      have hcons := openBlocks_append [e] rest
      rw [he, hzero] at hcons
      exact hcons
  have hhead := hflat [.messageStart id model inputTokens] (by simp; rfl)
  have hlast := hflat
    [.messageDelta (messagesStopReason outcome.finishReason
      (!outcome.toolCalls.isEmpty)) outcome.completionTokens, .messageStop]
    (by
      intro e he
      rcases mem_cons.mp he with rfl | he
      · rfl
      · obtain rfl := mem_singleton.mp he
        rfl)
  obtain ⟨hblocks, hzero⟩ := oneOpen_blockEvents blocks 0
  exact hhead.1.append hhead.2 (hblocks.append hzero hlast.1)

/-- The open flags count the open blocks. -/
def Counted (s : MessageStream) : Prop :=
  openBlocks s.written
    = (if s.thinkingOpen then 1 else 0) + (if s.textOpen then 1 else 0)

/-- A step that only adds to what is written, and keeps the count. -/
structure Grows (s s' : MessageStream) : Prop where
  written : s.written <+: s'.written
  counted : Counted s → Counted s'

theorem Grows.refl (s : MessageStream) : Grows s s :=
  ⟨prefix_refl _, id⟩

theorem Grows.trans {s s' s'' : MessageStream} (h : Grows s s')
    (h' : Grows s' s'') : Grows s s'' :=
  ⟨h.written.trans h'.written, fun hs => h'.counted (h.counted hs)⟩

/-- An event that neither starts nor stops a block. -/
theorem write_grows (s : MessageStream) {event : MessageEvent}
    (hevent : openBlocks [event] = 0) : Grows s (s.write event) := by
  refine ⟨prefix_append _ _, fun hs => ?_⟩
  show openBlocks (s.written ++ [event]) = _
  rw [openBlocks_append, hevent, hs]
  exact Int.add_zero _

variable {s : MessageStream}

theorem openThinking_grows
    (hclosed : s.thinkingOpen = false) : Grows s s.openThinking := by
  refine ⟨prefix_append _ _, fun hs => ?_⟩
  show openBlocks (s.written ++ [.contentBlockStart s.nextIndex .thinking])
    = (if true then 1 else 0) + (if s.textOpen then 1 else 0)
  rw [openBlocks_append, hs, hclosed]
  show _ + (1 : Int) = _
  simp only [if_true, Bool.false_eq_true, if_false]
  omega

theorem openText_grows (hclosed : s.textOpen = false) :
    Grows s s.openText := by
  refine ⟨prefix_append _ _, fun hs => ?_⟩
  show openBlocks (s.written ++ [.contentBlockStart s.nextIndex .text])
    = (if s.thinkingOpen then 1 else 0) + (if true then 1 else 0)
  rw [openBlocks_append, hs, hclosed]
  show _ + (1 : Int) = _
  simp only [if_true, Bool.false_eq_true, if_false]
  omega

theorem closeThinking_grows (s : MessageStream) : Grows s s.closeThinking := by
  unfold closeThinking
  cases hopen : s.thinkingOpen with
  | false => exact Grows.refl s
  | true =>
    refine ⟨prefix_append _ _, fun hs => ?_⟩
    show openBlocks (s.written ++ [.contentBlockStop s.thinkingIndex])
      = (if false then 1 else 0) + (if s.textOpen then 1 else 0)
    rw [openBlocks_append, hs, hopen]
    show _ + (-1 : Int) = _
    simp only [if_true, Bool.false_eq_true, if_false]
    omega

theorem closeText_grows (s : MessageStream) : Grows s s.closeText := by
  unfold closeText
  cases hopen : s.textOpen with
  | false => exact Grows.refl s
  | true =>
    refine ⟨prefix_append _ _, fun hs => ?_⟩
    show openBlocks (s.written ++ [.contentBlockStop s.textIndex])
      = (if s.thinkingOpen then 1 else 0) + (if false then 1 else 0)
    rw [openBlocks_append, hs, hopen]
    show _ + (-1 : Int) = _
    simp only [if_true, Bool.false_eq_true, if_false]
    omega

theorem call_grows (s : MessageStream) (c : SinkCall) :
    Grows s (s.call c) := by
  cases c with
  | onReasoning text =>
    show Grows s (s.onReasoning text)
    unfold onReasoning
    cases hopen : s.thinkingOpen with
    | true => exact write_grows s rfl
    | false => exact (openThinking_grows hopen).trans (write_grows _ rfl)
  | onContent text =>
    show Grows s (s.onContent text)
    unfold onContent
    have hclose := closeThinking_grows s
    cases hopen : s.closeThinking.textOpen with
    | true =>
      dsimp only
      rw [if_pos hopen]
      exact hclose.trans (write_grows _ rfl)
    | false =>
      dsimp only
      rw [if_neg (by rw [hopen]; exact Bool.false_ne_true)]
      exact (hclose.trans (openText_grows hopen)).trans (write_grows _ rfl)

theorem calls_grow (calls : List SinkCall) (s : MessageStream) :
    Grows s (calls.foldl call s) := by
  induction calls generalizing s with
  | nil => exact Grows.refl s
  | cons c rest ih => exact (call_grows s c).trans (ih (s.call c))

/-- The tail only adds to what is written. -/
theorem tail_grows (s : MessageStream) (toolCapable : Bool)
    (outcome : GenerationOutcome) (remaining : Bytes) :
    s.written <+: (s.tail toolCapable outcome remaining).written := by
  have hwhole : ∀ (t : MessageStream) b ds,
      t.written <+: (t.wholeBlock b ds).written :=
    fun t b ds => prefix_append _ _
  have htools : ∀ (calls : List ToolCall) (t : MessageStream),
      t.written <+: (calls.foldl toolBlock t).written := by
    intro calls
    induction calls with
    | nil => exact fun t => prefix_refl _
    | cons c rest ih =>
      exact fun t => (hwhole t _ _).trans (ih (t.toolBlock c))
  have hclose := (closeThinking_grows s).trans (closeText_grows _)
  unfold tail
  refine IsPrefix.trans ?_ (prefix_append _ _)
  refine IsPrefix.trans ?_ (prefix_append _ _)
  refine hclose.written.trans ?_
  generalize s.closeThinking.closeText = t
  dsimp only
  have hmiddle : t.written <+: (if toolCapable then
      outcome.toolCalls.foldl toolBlock
        (if remaining.isEmpty then t else t.wholeBlock .text [.text remaining])
    else t).written := by
    cases toolCapable with
    | false => exact prefix_refl _
    | true =>
      refine IsPrefix.trans ?_ (htools outcome.toolCalls _)
      cases remaining.isEmpty with
      | true => exact prefix_refl _
      | false => exact hwhole t _ _
  refine hmiddle.trans ?_
  generalize (if toolCapable then
      outcome.toolCalls.foldl toolBlock
        (if remaining.isEmpty then t else t.wholeBlock .text [.text remaining])
    else t) = u
  by_cases hzero : u.nextIndex = 0
  · rw [if_pos hzero]
    exact hwhole u _ _
  · simp [hzero]

/-- After content a text block is open, and reasoning leaves it so. -/
theorem onReasoning_textOpen (s : MessageStream) (text : Bytes) :
    (s.onReasoning text).textOpen = s.textOpen
      ∧ (s.onReasoning text).thinkingOpen = true := by
  unfold onReasoning
  cases hopen : s.thinkingOpen with
  | true => exact ⟨rfl, hopen⟩
  | false => exact ⟨rfl, rfl⟩

theorem onContent_textOpen (s : MessageStream) (text : Bytes) :
    (s.onContent text).textOpen = true := by
  unfold onContent
  dsimp only
  by_cases hopen : s.closeThinking.textOpen = true
  · rw [if_pos hopen]
    exact hopen
  · rw [if_neg hopen]
    rfl

theorem calls_textOpen (calls : List SinkCall) (s : MessageStream)
    (h : s.textOpen = true) : (calls.foldl call s).textOpen = true := by
  induction calls generalizing s with
  | nil => exact h
  | cons c rest ih =>
    refine ih (s.call c) ?_
    cases c with
    | onReasoning text => exact (onReasoning_textOpen s text).1.trans h
    | onContent text => exact onContent_textOpen s text

/-- Calls out of order open two blocks at once. -/
theorem interleaved_two {calls : List SinkCall} (h : Interleaved calls)
    (hs : Counted s) (events : List MessageEvent)
    (hevents : (calls.foldl call s).written <+: events) :
    ¬ OneOpen events := by
  obtain ⟨before, text, between, reasoning, after, rfl⟩ := h
  rw [foldl_append, foldl_cons, foldl_append,
    foldl_cons] at hevents
  have hcount := ((calls_grow before s).trans (call_grows _
    (.onContent text))).trans (calls_grow between _)
  have hopen := calls_textOpen between _
    (onContent_textOpen (before.foldl call s) text)
  change (between.foldl call ((before.foldl call s).call
    (.onContent text))).textOpen = true at hopen
  generalize between.foldl call ((before.foldl call s).call (.onContent text)) = t
    at hevents hcount hopen
  obtain ⟨htext, hthinking⟩ := onReasoning_textOpen t reasoning
  have htwo : openBlocks (t.onReasoning reasoning).written = 2 := by
    have hcounted :=
      (hcount.trans (call_grows t (.onReasoning reasoning))).counted hs
    change openBlocks (t.onReasoning reasoning).written
      = (if (t.onReasoning reasoning).thinkingOpen then 1 else 0)
        + (if (t.onReasoning reasoning).textOpen then 1 else 0) at hcounted
    rw [htext, hthinking, hopen] at hcounted
    exact hcounted
  have hpre : (t.onReasoning reasoning).written <+: events :=
    ((calls_grow after _).written).trans hevents
  intro hone
  have hle := hone (t.onReasoning reasoning).written.length
  rw [← prefix_iff_eq_take.mp hpre, htwo] at hle
  exact absurd hle (by decide)

-- ============ messages

variable {J : Type}

/-- A message stream keeps the protocol — blocks one after the other, with
the data the collected response reports — exactly when no reasoning is
published once content has been shown. -/
theorem messages_protocol_iff (json : JsonApi J) (newId : Nat → Bytes)
    (prepared : PreparedRequest) (id model : Bytes) (inputTokens : Nat)
    (g : Generation) :
    (∃ events outcome, handleMessages json newId prepared id model
          inputTokens g = .ok (events, outcome)
        ∧ { outcome with streamedContentBytes := 0 }
          = runCollected json newId prepared g
        ∧ MessageProtocol events outcome)
      ↔ ReasoningFirst prepared.toolCapable g.published := by
  obtain ⟨calls, outcome, hrun, houtcome, -, hreasoning, hcontent,
    hordered⟩ := runStreamed_spec json newId prepared g
  have hremaining : unstreamedContent outcome = .ok [] := by
    have hbytes : outcome.streamedContentBytes = outcome.text.length :=
      congrArg GenerationOutcome.streamedContentBytes houtcome
    unfold unstreamedContent
    rw [hbytes, if_neg (Nat.lt_irrefl _), List.drop_length]
  have hhandle : handleMessages json newId prepared id model inputTokens g
      = .ok ((MessageStream.tail (calls.foldl call
          (.start id model inputTokens)) prepared.toolCapable outcome
            []).written, outcome) := by
    unfold handleMessages
    rw [hrun]
    show (do
      let remaining ← unstreamedContent outcome
      Except.ok ((MessageStream.tail (calls.foldl call
        (.start id model inputTokens)) prepared.toolCapable outcome
          remaining).written, outcome)) = _
    rw [hremaining]
    rfl
  constructor
  · rintro ⟨events, outcome', heq, -, hprotocol⟩
    obtain ⟨rfl, rfl⟩ :=
      Prod.mk.inj (Except.ok.inj (hhandle.symm.trans heq))
    by_contra hnot
    exact interleaved_two (hordered.mpr hnot)
      (show Counted (.start id model inputTokens) from rfl) _
      (tail_grows _ _ _ _) hprotocol.oneOpen
  · intro hfirst
    have hstart : Streaming (.messageStart id model inputTokens) [] none
        (.start id model inputTokens) := by
      refine ⟨rfl, rfl, ?_, nofun, ?_, nofun⟩
      · exact ⟨nofun, nofun⟩
      · exact ⟨nofun, nofun⟩
    obtain ⟨closed, current, hkind, hstream, htold⟩ :=
      calls_streaming calls hstart says_nil (Or.inl rfl)
        (fun hno => hordered.mp hno hfirst)
    rw [List.nil_append, List.nil_append, hreasoning, hcontent] at htold
    have hcalls : prepared.toolCapable = false → outcome.toolCalls = [] := by
      intro hplain
      rw [houtcome]
      unfold parseContent
      rw [hplain]
      rfl
    obtain ⟨blocks, hwritten, hsaid⟩ :=
      hstream.tail prepared.toolCapable outcome hkind htold hcalls
    refine ⟨_, outcome, hhandle, ?_, id, model, inputTokens, blocks,
      hwritten, hsaid.reasoning, hsaid.content, hsaid.calls⟩
    rw [houtcome]
    rfl

/-- A Muse turn that answers and then thinks. -/
def answerThenThink : Generation where
  published := [⟨.content, ascii "a"⟩, ⟨.reasoning, ascii "b"⟩]
  content := ascii "a"
  reasoning := ascii "b"
  promptTokens := 1
  generatedTokens := 2
  reasoningTokens := 1
  finishReason := .stopToken
  content_published := rfl
  reasoning_published := rfl

/-- Its text block is still open when the thinking block starts. -/
theorem message_two_blocks_open :
    ¬ ∃ events outcome, handleMessages (J := Unit)
          ⟨fun _ => none, fun _ => (), fun _ => []⟩
          (fun _ => []) ⟨false, 128⟩ (ascii "msg") (ascii "muse") 1
          answerThenThink = .ok (events, outcome)
        ∧ MessageProtocol events outcome := by
  rintro ⟨events, outcome, heq, hprotocol⟩
  have hfour : events.take 4
      = [.messageStart (ascii "msg") (ascii "muse") 1, .contentBlockStart 0 .text,
        .contentBlockDelta 0 (.text (ascii "a")),
        .contentBlockStart 1 .thinking] := by
    obtain ⟨rfl, -⟩ := Prod.mk.inj (Except.ok.inj heq)
    rfl
  have hle := hprotocol.oneOpen 4
  rw [hfour] at hle
  exact absurd hle (by decide)

end Ginfer.Serve.Messages
