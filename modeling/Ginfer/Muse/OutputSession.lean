/-
The output decoder of the ATEM protocol and its session
(targets/muse_glimmer_30b/impl/frontend/frontend.cpp).

# The decoder

A generation is a sequence of messages: `<|start|>`, a header that names
whom it is to, `<|message|>`, a body, `<|eom|>`. The body of a message to
`self` is reasoning, every other body is content; the text outside of
bodies is header. As in the other family's decoder, text is whole UTF-8
characters, and a channel holds back what could still begin one of its
stop strings.

Every function is over `append`, how text is put at the end of an output:
in the session it is `append_delta`, whose output has room for two deltas.
What else it could be shows what a token does to an output of a given
form (Proofs/Rounds.lean).

# The session

`preview` computes on copies what `commit_preview` then installs, for a
round of one token or of many.
-/
import Ginfer.Frontend.OutputSession

namespace Ginfer.Muse

open Ginfer.Lib Ginfer.Frontend

-- ============ the state

/-- `kEomToken`. -/
def eomToken : TokenId := 200007

/-- `kStartToken`. -/
def startToken : TokenId := 200022

/-- `kMessageToken`. -/
def messageToken : TokenId := 200023

/-- `AtemStage`. -/
inductive AtemStage where
  | plainContent
  | header
  | betweenMessages
  | reasoning
  | content
  deriving DecidableEq

/-- `body_stage`. -/
def AtemStage.isBody : AtemStage → Bool
  | .reasoning | .content | .plainContent => true
  | .header | .betweenMessages => false

/-- `stage_channel`. -/
def AtemStage.channel : AtemStage → OutputChannel
  | .reasoning => .reasoning
  | _ => .content

/-- `DecoderState`. -/
structure DecoderState where
  utf8Pending : Bytes
  headerPending : Bytes
  stopPending : OutputChannel → Bytes
  stage : AtemStage
  terminal : Bool
  decodedBytes : Nat
  reasoningTokens : Nat

/-- What a feed threads: the decoder, the round's output, and the best
match (`none` for the null pointer). -/
structure Feed where
  state : DecoderState
  emitted : PublishedOutput
  best : Option StopMatch

/-- How text is put at the end of an output. -/
abbrev Append :=
  PublishedOutput → OutputChannel → Bytes → Except Exception PublishedOutput

-- ============ the stop strings

/-- `longest_suffix_prefix`: the longest suffix of `text` that is a prefix
of `marker` and not the whole of it. -/
def longestSuffixPrefix (text marker : Bytes) : Nat :=
  suffixPrefixFrom text marker true (min text.length (marker.length - 1))

/-- `stop_hold_size`. -/
def stopHoldSize (text : Bytes) (channel : OutputChannel)
    (policy : StopPolicy) : Nat :=
  policy.strings.foldl
    (fun hold stop =>
      if stop.channel ≠ channel then hold
      else max hold (longestSuffixPrefix text stop.text)) 0

section

variable (append : Append) (policy : StopPolicy) (committedTokens : Nat)

/-- The output a match publishes: what was emitted, the text before the
stop string, and the stop string when it is included. -/
def stopCandidate (emitted : PublishedOutput) (channel : OutputChannel)
    (before : Bytes) (stop : StopString) :
    Except Exception PublishedOutput := do
  let candidate ← append emitted channel before
  if stop.includeInOutput then append candidate channel stop.text
  else .ok candidate

/-- The search loop of `feed_channel` over the stop strings from index
`declaration` on. -/
def searchStops (channel : OutputChannel) (combined : Bytes)
    (combinedStart : Nat) (emitted : PublishedOutput) :
    Nat → List StopString → StopMatch → Except Exception StopMatch
  | _, [], best => .ok best
  | declaration, stop :: rest, best =>
    if stop.channel ≠ channel then
      searchStops channel combined combinedStart emitted
        (declaration + 1) rest best
    else
      match find combined stop.text with
      | none =>
        searchStops channel combined combinedStart emitted
          (declaration + 1) rest best
      | some found =>
        if !stopMatchPrecedes committedTokens (combinedStart + found)
            declaration best then
          searchStops channel combined combinedStart emitted
            (declaration + 1) rest best
        else do
          let candidate ← stopCandidate append emitted channel
            (combined.take found) stop
          searchStops channel combined combinedStart emitted
            (declaration + 1) rest
            ⟨true, committedTokens, combinedStart + found, declaration, candidate⟩

/-- The search of `feed_channel`, skipped for a null match pointer. -/
def searchBest (channel : OutputChannel) (combined : Bytes)
    (combinedStart : Nat) (emitted : PublishedOutput) :
    Option StopMatch → Except Exception (Option StopMatch)
  | none => .ok none
  | some best => do
    let found ← searchStops append committedTokens channel combined
      combinedStart emitted 0 policy.strings best
    .ok (some found)

/-- `feed_channel`. The bytes pending on the channel were counted in
`decoded_bytes` when they arrived, so `combinedStart` is a true
difference. -/
def feedChannel (channel : OutputChannel) (text : Bytes) (f : Feed) :
    Except Exception Feed :=
  if text.isEmpty then .ok f
  else do
    let pending := f.state.stopPending channel
    let combined := pending ++ text
    let best ← searchBest append policy committedTokens channel combined
      (f.state.decodedBytes - pending.length) f.emitted f.best
    let safe := combined.length - stopHoldSize combined channel policy
    let emitted ← append f.emitted channel (combined.take safe)
    .ok
      { state :=
          { f.state with
            stopPending := Function.update f.state.stopPending channel
              (combined.drop safe)
            decodedBytes := f.state.decodedBytes + text.length }
        emitted := emitted
        best := best }

/-- `close_channel`: what the channel held back is published. -/
def closeChannel (channel : OutputChannel) (f : Feed) :
    Except Exception Feed := do
  let emitted ← append f.emitted channel (f.state.stopPending channel)
  .ok
    { f with
      state :=
        { f.state with
          stopPending := Function.update f.state.stopPending channel [] }
      emitted := emitted }

-- ============ the protocol

/-- `feed_decoded_text`. -/
def feedDecodedText (text : Bytes) (f : Feed) : Except Exception Feed :=
  if f.state.stage = .header ∨ f.state.stage = .betweenMessages then
    .ok
      { f with
        state :=
          { f.state with headerPending := f.state.headerPending ++ text } }
  else feedChannel append policy committedTokens f.state.stage.channel text f

/-- `feed_token_bytes`. -/
def feedTokenBytes (bytes : Bytes) (f : Feed) : Except Exception Feed := do
  let pending := f.state.utf8Pending ++ bytes
  let valid ← validUtf8PrefixSize pending
  if valid = 0 then
    .ok { f with state := { f.state with utf8Pending := pending } }
  else
    feedDecodedText append policy committedTokens (pending.take valid)
      { f with
        state := { f.state with utf8Pending := pending.drop valid } }

/-- The match pointer of a feed, and back: the flushes pass a null one. -/
def withoutMatch (feed : Feed → Except Exception Feed) (f : Feed) :
    Except Exception Feed := do
  let fed ← feed { f with best := none }
  .ok { fed with best := f.best }

/-- `flush_incomplete_utf8`: an incomplete character is published as the
replacement character. -/
def flushIncompleteUtf8 (f : Feed) : Except Exception Feed :=
  if f.state.utf8Pending.isEmpty then .ok f
  else
    withoutMatch
      (feedDecodedText append policy committedTokens replacementCharacter)
      { f with state := { f.state with utf8Pending := [] } }

/-- `trim_ascii`. -/
def trimAscii (text : Bytes) : Bytes :=
  ((text.dropWhile isSpace).reverse.dropWhile isSpace).reverse

/-- Where the body of a message with this header goes; `none` for a header
that is malformed. -/
def headerStage (header : Bytes) : Option AtemStage :=
  if header = ascii "assistant" then some .content
  else if (ascii "assistant").isPrefixOf header
      && decide ((ascii "assistant").length + (ascii " to=").length
        < header.length)
      && (header.drop (ascii "assistant").length).take
          (ascii " to=").length == ascii " to=" then
    some (if header.drop ((ascii "assistant").length
      + (ascii " to=").length) = ascii "self" then .reasoning else .content)
  else none

/-- The end of `open_atem_message`; a malformed header is content. -/
def openBody (f : Feed) : Except Exception Feed :=
  let header := trimAscii f.state.headerPending
  match headerStage header with
  | some stage =>
    .ok { f with state := { f.state with
      headerPending := [], stage := stage } }
  | none =>
    withoutMatch (feedChannel append policy committedTokens .content header)
      { f with state := { f.state with
          headerPending := [], stage := .content } }

/-- `open_atem_message`. -/
def openAtemMessage (f : Feed) : Except Exception Feed := do
  let flushed ← flushIncompleteUtf8 append policy committedTokens f
  openBody append policy committedTokens flushed

/-- The middle of `close_atem_message`. -/
def closeBody (f : Feed) : Except Exception Feed :=
  if f.state.stage.isBody then closeChannel append f.state.stage.channel f
  else .ok f

/-- `close_atem_message`, to the stage the caller sets. -/
def closeAtemMessage (stage : AtemStage) (f : Feed) :
    Except Exception Feed := do
  let flushed ← flushIncompleteUtf8 append policy committedTokens f
  let closed ← closeBody append flushed
  .ok { closed with state := { closed.state with
    stage := stage, headerPending := [] } }

/-- `feed_protocol_token`. -/
def feedProtocolToken (token : TokenId) (bytes : Bytes) (f : Feed) :
    Except Exception Feed :=
  if f.state.stage = .plainContent then
    feedTokenBytes append policy committedTokens bytes f
  else if token = startToken then
    closeAtemMessage append policy committedTokens .header f
  else if token = messageToken
      ∧ (f.state.stage = .header ∨ f.state.stage = .betweenMessages) then
    openAtemMessage append policy committedTokens f
  else if token = eomToken then
    closeAtemMessage append policy committedTokens .betweenMessages f
  else feedTokenBytes append policy committedTokens bytes f

/-- The header that is left at the end is content. -/
def flushHeader (f : Feed) : Except Exception Feed :=
  if f.state.headerPending.isEmpty then .ok f
  else do
    let fed ← feedChannel append policy committedTokens .content
      f.state.headerPending f
    .ok { fed with state := { fed.state with headerPending := [] } }

/-- The middle of `terminalize`. -/
def flushStage (f : Feed) : Except Exception Feed :=
  if f.state.stage = .header ∨ f.state.stage = .betweenMessages then do
    let flushed ← flushHeader append policy committedTokens f
    closeChannel append .content flushed
  else closeChannel append f.state.stage.channel f

/-- `terminalize`. -/
def terminalize (state : DecoderState) (emitted : PublishedOutput) :
    Except Exception (DecoderState × PublishedOutput) := do
  let flushed ← flushIncompleteUtf8 append policy committedTokens
    ⟨state, emitted, none⟩
  let closed ← flushStage append policy committedTokens flushed
  .ok
    ({ closed.state with stopPending := fun _ => [], terminal := true },
      closed.emitted)

end

/-- `terminal_state`. -/
def terminalState (state : DecoderState) : DecoderState :=
  { state with
    utf8Pending := []
    headerPending := []
    stopPending := fun _ => []
    terminal := true }

-- ============ the session

/-- The state a session begins in. -/
def DecoderState.start (parseAtem : Bool) : DecoderState where
  utf8Pending := []
  headerPending := if parseAtem then ascii "assistant" else []
  stopPending := fun _ => []
  stage := if parseAtem then .header else .plainContent
  terminal := false
  decodedBytes := 0
  reasoningTokens := 0

/-- `OutputSession::Impl`. -/
structure OutputSession extends SessionOptions where
  state : DecoderState
  previewState : DecoderState
  previewOutput : PublishedOutput
  previewReady : Bool

/-- The session's constructor. -/
def OutputSession.make (tokenizer : Tokenizer) (policy : StopPolicy)
    (raw preserveSpecialTokens parseAtemOutput : Bool) :
    OutputSession where
  tokenizer := tokenizer
  policy := policy
  preserveSpecial := raw || preserveSpecialTokens
  state := .start (parseAtemOutput && !raw)
  previewState := .start false
  previewOutput := []
  previewReady := false

/-- What one token does to a preview: it goes on, or it finishes. -/
inductive TokenStep where
  | next (state : DecoderState) (output : PublishedOutput)
  | finish (state : DecoderState) (output : PublishedOutput)
      (reason : FinishReason)

section

variable (append : Append) (s : SessionOptions)

/-- A token generated in the body of reasoning is a reasoning token. -/
def countToken (state : DecoderState) : DecoderState :=
  if state.stage = .reasoning then
    { state with reasoningTokens := state.reasoningTokens + 1 }
  else state

/-- The finish on a stop token. -/
def finishOnStopToken (count : Nat) (state : DecoderState)
    (output : PublishedOutput) : Except Exception TokenStep := do
  let (state, output) ← terminalize append s.policy count state output
  .ok (.finish state output .stopToken)

/-- The second half of a turn of `preview`'s loop: the bytes of a token
that is not a hidden stop token. -/
def feedToken (count : Nat) (state : DecoderState)
    (output : PublishedOutput) (token : TokenId) :
    Except Exception TokenStep := do
  let bytes ← s.tokenizer.decodeTokenBytes token (!s.preserveSpecial)
  let fed ← feedProtocolToken append s.policy count token bytes
    ⟨state, output, some .empty⟩
  match fed.best.filter (·.found) with
  | some found =>
    .ok (.finish (terminalState fed.state) found.output .stopString)
  | none =>
    if token ∈ s.policy.tokenIds then
      finishOnStopToken append s count fed.state fed.emitted
    else .ok (.next fed.state fed.emitted)

/-- One turn of `preview`'s loop, at the token whose number in the round
is `count`. -/
def previewToken (count : Nat) (state : DecoderState)
    (output : PublishedOutput) (token : TokenId) :
    Except Exception TokenStep :=
  if !s.tokenizer.isValidToken token then
    .error (.outOfRange s!"generated token is outside the checkpoint vocabulary: {token}")
  else if token ∈ s.policy.tokenIds ∧ s.policy.publishStopToken = false then
    finishOnStopToken append s count (countToken state) output
  else feedToken append s count (countToken state) output token

/-- `preview`'s loop from the token number `count + 1` on, with its end:
the limit reason when the round used the whole budget. -/
def previewLoop (budgetRemaining : Nat) (limitReason : FinishReason) :
    Nat → DecoderState → PublishedOutput → List TokenId →
      Except Exception (DecoderState × PublishedOutput × OutputDecision)
  | count, state, output, [] =>
    if count = budgetRemaining then do
      let (state', output') ←
        terminalize append s.policy count state output
      .ok (state', output', ⟨count, limitReason⟩)
    else .ok (state, output, ⟨count, .none⟩)
  | count, state, output, token :: rest => do
    let step ← previewToken append s (count + 1) state output token
    match step with
    | .finish state' output' reason =>
      .ok (state', output', ⟨count + 1, reason⟩)
    | .next state' output' =>
      previewLoop budgetRemaining limitReason (count + 1) state' output' rest

end

namespace OutputSession

/-- `preview`. -/
def preview (s : OutputSession) (tokens : List TokenId)
    (budgetRemaining : Nat) (limitReason : FinishReason) :
    Except Exception (OutputDecision × OutputSession) :=
  if s.state.terminal then
    .error (.logicError "output session is already terminal")
  else if s.previewReady then
    .error (.logicError "output session already has a preview")
  else if tokens.isEmpty then
    .error (.invalidArgument "cannot preview an empty generated-token round")
  else if budgetRemaining < tokens.length then
    .error (.invalidArgument "generated-token round exceeds the remaining budget")
  else if limitReason ≠ .outputLimit ∧ limitReason ≠ .contextCapacity then
    .error (.invalidArgument "generated-token budget has an invalid limit reason")
  else do
    let (state, output, decision) ← previewLoop appendDelta
      s.toSessionOptions budgetRemaining limitReason 0 s.state [] tokens
    .ok (decision,
      { s with
        previewState := state
        previewOutput := output
        previewReady := true })

/-- `commit_preview`, of a session whose preview is ready. -/
def commitPreview (s : OutputSession) : PublishedOutput × OutputSession :=
  (s.previewOutput,
    { s with
      state := s.previewState
      previewState := s.state
      previewOutput := []
      previewReady := false })

end OutputSession

-- ============ the rounds

/-- The caller's loop: each round is previewed against what is left of
the budget and committed, until one finishes. -/
def feedRounds (limitReason : FinishReason) :
    OutputSession → Nat → List (List TokenId) → Except Exception SessionResult
  | s, _, [] => .ok ⟨0, .none, [], [], s.state.reasoningTokens⟩
  | s, budget, round :: rest => do
    let (decision, previewed) ← s.preview round budget limitReason
    let output := previewed.commitPreview.1
    let committed := previewed.commitPreview.2
    if decision.finished then
      .ok (SessionResult.after decision output
        ⟨0, decision.finishReason, [], [], committed.state.reasoningTokens⟩)
    else do
      let more ← feedRounds limitReason committed
        (budget - decision.acceptedTokens) rest
      .ok (SessionResult.after decision output more)

end Ginfer.Muse
