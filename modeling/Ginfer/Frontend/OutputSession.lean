/-
The output decoder and its session
(targets/qwen3_6/impl/frontend/frontend.cpp).

# The decoder

A generated token contributes bytes; whole UTF-8 characters of them
become text; the text goes to the reasoning channel until `</think>` and
to the content channel after it; each channel holds back the suffix that
could still begin one of its stop strings. `DecoderState` is what is held
back between tokens. A feed threads three things — the state, the output
emitted so far in this round and the best stop match found so far — so
`Feed` bundles them, and every decoder function maps a `Feed` to a `Feed`
or throws.

The source passes a null match pointer when it only flushes
(`terminalize`); that is `best := none`.

# The session

`preview` computes on copies what `commit_preview` then installs. A throw
out of `preview` abandons the session (its caller fails the whole
engine), so `preview` is an `Except`.
-/
import Ginfer.Frontend.Text

namespace Ginfer.Frontend

open Ginfer.Lib

-- ============ the output

/-- `OutputChannel`. -/
inductive OutputChannel where
  | content
  | reasoning
  deriving DecidableEq

/-- `OutputDelta`. -/
structure OutputDelta where
  channel : OutputChannel
  text : Bytes

/-- `PublishedOutput`: at most two deltas, a bound `pushBack` enforces. -/
abbrev PublishedOutput := List OutputDelta

/-- `PublishedOutput::push_back`. -/
def pushBack (output : PublishedOutput) (value : OutputDelta) :
    Except Exception PublishedOutput :=
  if output.length = 2 then
    .error (.logicError
      "output decoder produced more than two channel transitions")
  else .ok (output ++ [value])

/-- `append_delta`. -/
def appendDelta (output : PublishedOutput) (channel : OutputChannel)
    (text : Bytes) : Except Exception PublishedOutput :=
  if text.isEmpty then .ok output
  else
    match output.getLast? with
    | none => pushBack output ⟨channel, text⟩
    | some back =>
      if back.channel = channel then
        .ok (output.dropLast ++ [⟨channel, back.text ++ text⟩])
      else pushBack output ⟨channel, text⟩

/-- `StopString`. -/
structure StopString where
  text : Bytes
  channel : OutputChannel
  includeInOutput : Bool

/-- The merged `StopPolicy` a session holds; `include_model_defaults` is
consumed by `merge_stop_policy`. -/
structure StopPolicy where
  tokenIds : List TokenId
  strings : List StopString
  publishStopToken : Bool

-- ============ the decoder

/-- `DecoderState`. -/
structure DecoderState where
  utf8Pending : Bytes
  thinkMarkerPending : Bytes
  stopPending : OutputChannel → Bytes
  inReasoning : Bool
  stripContentLeading : Bool
  terminal : Bool
  decodedBytes : Nat
  reasoningTokens : Nat

/-- `StopMatch`. -/
structure StopMatch where
  found : Bool
  committedTokens : Nat
  byteCut : Nat
  declarationOrder : Nat
  output : PublishedOutput

/-- A default-constructed `StopMatch`. -/
def StopMatch.empty : StopMatch := ⟨false, 0, 0, 0, []⟩

/-- What a feed threads: the decoder, the round's output, and the best
match (`none` for the null pointer). -/
structure Feed where
  state : DecoderState
  emitted : PublishedOutput
  best : Option StopMatch

/-- `stop_match_precedes`. -/
def stopMatchPrecedes (committedTokens byteCut declarationOrder : Nat)
    (current : StopMatch) : Bool :=
  if !current.found then true
  else if committedTokens ≠ current.committedTokens then
    decide (committedTokens < current.committedTokens)
  else if byteCut ≠ current.byteCut then decide (byteCut < current.byteCut)
  else decide (declarationOrder < current.declarationOrder)

/-- `stop_hold_size`: the suffix to hold back for the channel's stop
strings. -/
def stopHoldSize (text : Bytes) (channel : OutputChannel)
    (policy : StopPolicy) : Nat :=
  policy.strings.foldl
    (fun hold stop =>
      if stop.channel ≠ channel then hold
      else max hold (longestSuffixPrefix text stop.text false)) 0

/-- The output a match publishes: what was emitted, the text before the
stop string, and the stop string when it is included. -/
def stopCandidate (emitted : PublishedOutput) (channel : OutputChannel)
    (before : Bytes) (stop : StopString) :
    Except Exception PublishedOutput :=
  match appendDelta emitted channel before with
  | .error e => .error e
  | .ok candidate =>
    if stop.includeInOutput then appendDelta candidate channel stop.text
    else .ok candidate

/-- The search loop of `feed_channel` over the stop strings from index
`declaration` on. -/
def searchStops (channel : OutputChannel) (combined : Bytes)
    (combinedStart committedTokens : Nat) (emitted : PublishedOutput) :
    Nat → List StopString → StopMatch → Except Exception StopMatch
  | _, [], best => .ok best
  | declaration, stop :: rest, best =>
    if stop.channel ≠ channel then
      searchStops channel combined combinedStart committedTokens emitted
        (declaration + 1) rest best
    else
      match find combined stop.text with
      | none =>
        searchStops channel combined combinedStart committedTokens
          emitted (declaration + 1) rest best
      | some found =>
        if !stopMatchPrecedes committedTokens (combinedStart + found)
            declaration best then
          searchStops channel combined combinedStart committedTokens
            emitted (declaration + 1) rest best
        else
          match stopCandidate emitted channel (combined.take found)
              stop with
          | .error e => .error e
          | .ok candidate =>
            searchStops channel combined combinedStart
              committedTokens emitted (declaration + 1) rest
              ⟨true, committedTokens, combinedStart + found,
                declaration, candidate⟩

/-- The search of `feed_channel`, skipped for a null match pointer. -/
def searchBest (policy : StopPolicy) (channel : OutputChannel)
    (combined : Bytes) (combinedStart committedTokens : Nat)
    (emitted : PublishedOutput) :
    Option StopMatch → Except Exception (Option StopMatch)
  | none => .ok none
  | some best =>
    (searchStops channel combined combinedStart committedTokens emitted 0
      policy.strings best).map some

/-- `feed_channel`. The bytes pending on the channel were counted in
`decoded_bytes` when they arrived, so `combinedStart` is a true
difference. -/
def feedChannel (policy : StopPolicy) (committedTokens : Nat)
    (channel : OutputChannel) (text : Bytes) (f : Feed) :
    Except Exception Feed :=
  if text.isEmpty then .ok f
  else
    let pending := f.state.stopPending channel
    let combined := pending ++ text
    let combinedStart := f.state.decodedBytes - pending.length
    match searchBest policy channel combined combinedStart committedTokens
        f.emitted f.best with
    | .error e => .error e
    | .ok best =>
      let safe := combined.length - stopHoldSize combined channel policy
      match appendDelta f.emitted channel (combined.take safe) with
      | .error e => .error e
      | .ok emitted =>
        .ok
          { state :=
              { f.state with
                stopPending := Function.update f.state.stopPending
                  channel (combined.drop safe)
                decodedBytes := f.state.decodedBytes + text.length }
            emitted := emitted
            best := best }

/-- `close_channel`: what the channel held back is published. -/
def closeChannel (channel : OutputChannel) (f : Feed) : Except Exception Feed :=
  match appendDelta f.emitted channel (f.state.stopPending channel) with
  | .error e => .error e
  | .ok emitted =>
    .ok
      { f with
        state :=
          { f.state with
            stopPending := Function.update f.state.stopPending channel [] }
        emitted := emitted }

/-- `feed_content`: leading whitespace of the content is dropped until
something else has appeared. -/
def feedContent (policy : StopPolicy) (committedTokens : Nat)
    (text : Bytes) (f : Feed) : Except Exception Feed :=
  if f.state.stripContentLeading then
    let stripped := text.dropWhile isSpace
    feedChannel policy committedTokens .content stripped
      { f with
        state :=
          { f.state with stripContentLeading := stripped.isEmpty } }
  else feedChannel policy committedTokens .content text f

/-- The end of reasoning in `feed_decoded_text`: the text before the
marker closes the reasoning channel, the rest opens the content. -/
def closeReasoning (policy : StopPolicy) (committedTokens : Nat)
    (before after : Bytes) (f : Feed) : Except Exception Feed :=
  match feedChannel policy committedTokens .reasoning before f with
  | .error e => .error e
  | .ok fed =>
    match closeChannel .reasoning fed with
    | .error e => .error e
    | .ok closed =>
      feedContent policy committedTokens after
        { closed with
          state :=
            { closed.state with
              thinkMarkerPending := []
              inReasoning := false
              stripContentLeading := true } }

/-- `feed_decoded_text`. -/
def feedDecodedText (policy : StopPolicy) (committedTokens : Nat)
    (text : Bytes) (f : Feed) : Except Exception Feed :=
  if !f.state.inReasoning then feedContent policy committedTokens text f
  else
    let pending := f.state.thinkMarkerPending ++ text
    match find pending thinkClose with
    | some marker =>
      closeReasoning policy committedTokens (pending.take marker)
        (pending.drop (marker + thinkClose.length))
        { f with
          state := { f.state with thinkMarkerPending := pending } }
    | none =>
      let safe :=
        pending.length - longestSuffixPrefix pending thinkClose true
      match feedChannel policy committedTokens .reasoning (pending.take safe)
          { f with
            state := { f.state with thinkMarkerPending := pending } } with
      | .error e => .error e
      | .ok fed =>
        .ok
          { fed with
            state :=
              { fed.state with
                thinkMarkerPending := pending.drop safe } }

/-- `feed_token_bytes`. -/
def feedTokenBytes (policy : StopPolicy) (committedTokens : Nat)
    (bytes : Bytes) (f : Feed) : Except Exception Feed :=
  let pending := f.state.utf8Pending ++ bytes
  match validUtf8PrefixSize pending with
  | .error e => .error e
  | .ok valid =>
    if valid = 0 then
      .ok { f with state := { f.state with utf8Pending := pending } }
    else
      feedDecodedText policy committedTokens (pending.take valid)
        { f with
          state := { f.state with utf8Pending := pending.drop valid } }

/-- The first half of `terminalize`: an incomplete character is published
as the replacement character. -/
def flushUtf8 (policy : StopPolicy) (committedTokens : Nat) (f : Feed) :
    Except Exception Feed :=
  if f.state.utf8Pending.isEmpty then .ok f
  else
    feedDecodedText policy committedTokens replacementCharacter
      { f with state := { f.state with utf8Pending := [] } }

/-- The second half: everything held back on the open channel. -/
def flushChannels (policy : StopPolicy) (committedTokens : Nat)
    (f : Feed) : Except Exception Feed :=
  if f.state.inReasoning then
    match feedChannel policy committedTokens .reasoning
        f.state.thinkMarkerPending f with
    | .error e => .error e
    | .ok fed =>
      closeChannel .reasoning
        { fed with
          state := { fed.state with thinkMarkerPending := [] } }
  else closeChannel .content f

/-- `terminalize`. -/
def terminalize (policy : StopPolicy) (committedTokens : Nat)
    (state : DecoderState) (emitted : PublishedOutput) :
    Except Exception (DecoderState × PublishedOutput) :=
  match flushUtf8 policy committedTokens ⟨state, emitted, none⟩ with
  | .error e => .error e
  | .ok flushed =>
    match flushChannels policy committedTokens flushed with
    | .error e => .error e
    | .ok closed =>
      .ok
        ({ closed.state with
            stopPending := fun _ => []
            terminal := true },
          closed.emitted)

/-- `terminal_state`. -/
def terminalState (state : DecoderState) : DecoderState :=
  { state with
    utf8Pending := []
    thinkMarkerPending := []
    stopPending := fun _ => []
    terminal := true }

-- ============ the session

/-- `FinishReason`. -/
inductive FinishReason where
  | none
  | outputLimit
  | contextCapacity
  | stopToken
  | stopString
  | cancelled
  deriving DecidableEq

/-- `runtime::OutputDecision`. -/
structure OutputDecision where
  acceptedTokens : Nat
  finishReason : FinishReason

/-- `OutputDecision::finished`. -/
def OutputDecision.finished (d : OutputDecision) : Bool :=
  d.finishReason != .none

/-- The part of `OutputSession::Impl` fixed at its construction. -/
structure SessionOptions where
  tokenizer : Tokenizer
  policy : StopPolicy
  preserveSpecial : Bool

/-- `OutputSession::Impl`. -/
structure OutputSession extends SessionOptions where
  state : DecoderState
  previewState : DecoderState
  previewOutput : PublishedOutput
  previewReady : Bool

/-- A default-constructed `DecoderState` starting in the given mode. -/
def DecoderState.start (inReasoning : Bool) : DecoderState where
  utf8Pending := []
  thinkMarkerPending := []
  stopPending := fun _ => []
  inReasoning := inReasoning
  stripContentLeading := false
  terminal := false
  decodedBytes := 0
  reasoningTokens := 0

/-- The session's constructor. -/
def OutputSession.make (tokenizer : Tokenizer) (policy : StopPolicy)
    (raw preserveSpecialTokens startsInReasoning : Bool) :
    OutputSession where
  tokenizer := tokenizer
  policy := policy
  preserveSpecial := raw || preserveSpecialTokens
  state := .start (startsInReasoning && !raw)
  previewState := .start false
  previewOutput := []
  previewReady := false

/-- What one token does to a preview: it goes on, or it finishes. -/
inductive TokenStep where
  | next (state : DecoderState) (output : PublishedOutput)
  | finish (state : DecoderState) (output : PublishedOutput)
      (reason : FinishReason)

namespace SessionOptions

/-- The decoder after the token was counted: a token generated while
reasoning is a reasoning token, also when it turns out to end it. -/
def countToken (state : DecoderState) : DecoderState :=
  if state.inReasoning then
    { state with reasoningTokens := state.reasoningTokens + 1 }
  else state

/-- The finish on a stop token: unless it is published, the decoder and
the output are those from before its bytes. -/
def finishOnStopToken (s : SessionOptions) (count : Nat)
    (before : DecoderState) (beforeOutput : PublishedOutput) (fed : Feed) :
    Except Exception TokenStep :=
  let ended :=
    if s.policy.publishStopToken then
      terminalize s.policy count fed.state fed.emitted
    else terminalize s.policy count before beforeOutput
  match ended with
  | .error e => .error e
  | .ok (state, output) => .ok (.finish state output .stopToken)

/-- One turn of `preview`'s loop, at the token whose number in the round
is `count`. -/
def previewToken (s : SessionOptions) (count : Nat) (state : DecoderState)
    (output : PublishedOutput) (token : TokenId) :
    Except Exception TokenStep :=
  if !s.tokenizer.isValidToken token then
    .error (.outOfRange s!"generated token is outside the checkpoint vocabulary: {token}")
  else
    let counted := countToken state
    match s.tokenizer.decodeTokenBytes token (!s.preserveSpecial) with
    | .error e => .error e
    | .ok bytes =>
      match feedTokenBytes s.policy count bytes
          ⟨counted, output, some .empty⟩ with
      | .error e => .error e
      | .ok fed =>
        match fed.best.filter (·.found) with
        | some found =>
          .ok (.finish (terminalState fed.state) found.output .stopString)
        | none =>
          if token ∈ s.policy.tokenIds then
            s.finishOnStopToken count counted output fed
          else .ok (.next fed.state fed.emitted)

/-- `preview`'s loop from the token number `count + 1` on, with its end:
the limit reason when the round used the whole budget. -/
def previewLoop (s : SessionOptions) (budgetRemaining : Nat)
    (limitReason : FinishReason) :
    Nat → DecoderState → PublishedOutput → List TokenId →
      Except Exception (DecoderState × PublishedOutput × OutputDecision)
  | count, state, output, [] =>
    if count = budgetRemaining then
      match terminalize s.policy count state output with
      | .error e => .error e
      | .ok (state', output') =>
        .ok (state', output', ⟨count, limitReason⟩)
    else .ok (state, output, ⟨count, .none⟩)
  | count, state, output, token :: rest =>
    match s.previewToken (count + 1) state output token with
    | .error e => .error e
    | .ok (.finish state' output' reason) =>
      .ok (state', output', ⟨count + 1, reason⟩)
    | .ok (.next state' output') =>
      previewLoop s budgetRemaining limitReason (count + 1) state' output' rest

end SessionOptions

namespace OutputSession

/-- `preview`. -/
def preview (s : OutputSession) (tokens : List TokenId)
    (budgetRemaining : Nat) (limitReason : FinishReason) :
    Except Exception (OutputDecision × OutputSession) :=
  if s.state.terminal then
    .error (.logicError "output session is already terminal")
  else if s.previewReady then
    .error (.logicError "output session already has a preview")
  else if tokens.isEmpty then
    .error (.invalidArgument "cannot preview an empty generated-token round")
  else if budgetRemaining < tokens.length then
    .error (.invalidArgument "generated-token round exceeds the remaining budget")
  else if limitReason ≠ .outputLimit ∧ limitReason ≠ .contextCapacity then
    .error (.invalidArgument "generated-token budget has an invalid limit reason")
  else
    match s.previewLoop budgetRemaining limitReason 0 s.state [] tokens with
    | .error e => .error e
    | .ok (state, output, decision) =>
      .ok (decision,
        { s with
          previewState := state
          previewOutput := output
          previewReady := true })

/-- `preview_terminal`. -/
def previewTerminal (s : OutputSession) (reason : FinishReason) :
    Except Exception (OutputDecision × OutputSession) :=
  if s.state.terminal then
    .error (.logicError "output session is already terminal")
  else if s.previewReady then
    .error (.logicError "output session already has a preview")
  else if reason = .none ∨ reason = .stopString ∨ reason = .stopToken then
    .error (.invalidArgument "invalid between-round terminal decoder reason")
  else
    match terminalize s.policy 0 s.state [] with
    | .error e => .error e
    | .ok (state, output) =>
      .ok (⟨0, reason⟩,
        { s with
          previewState := state
          previewOutput := output
          previewReady := true })

/-- `commit_preview`, of a session whose preview is ready. -/
def commitPreview (s : OutputSession) : PublishedOutput × OutputSession :=
  (s.previewOutput,
    { s with
      state := s.previewState
      previewState := s.state
      previewOutput := []
      previewReady := false })

end OutputSession

-- ============ the rounds

/-- The text of one channel of an output. -/
def textOn (channel : OutputChannel) (output : PublishedOutput) : Bytes :=
  output.flatMap fun d => if d.channel = channel then d.text else []

/-- What a generation adds up to. -/
structure SessionResult where
  acceptedTokens : Nat
  finishReason : FinishReason
  content : Bytes
  reasoning : Bytes
  reasoningTokens : Nat

/-- One committed round before the rest of the generation. -/
def SessionResult.after (decision : OutputDecision)
    (output : PublishedOutput) (r : SessionResult) : SessionResult :=
  { r with
    acceptedTokens := decision.acceptedTokens + r.acceptedTokens
    content := textOn .content output ++ r.content
    reasoning := textOn .reasoning output ++ r.reasoning }

/-- The caller's loop: each round is previewed against what is left of
the budget and committed, until one finishes. -/
def feedRounds (limitReason : FinishReason) :
    OutputSession → Nat → List (List TokenId) → Except Exception SessionResult
  | s, _, [] => .ok ⟨0, .none, [], [], s.state.reasoningTokens⟩
  | s, budget, round :: rest =>
    match s.preview round budget limitReason with
    | .error e => .error e
    | .ok (decision, previewed) =>
      let output := previewed.commitPreview.1
      let committed := previewed.commitPreview.2
      if decision.finished then
        .ok (SessionResult.after decision output
          ⟨0, decision.finishReason, [], [], committed.state.reasoningTokens⟩)
      else
        (feedRounds limitReason committed
          (budget - decision.acceptedTokens) rest).map
            (SessionResult.after decision output)

-- ============ the calls

/-- A call of the session's owner: a round of generated tokens, or an end
between rounds. -/
inductive SessionCall where
  | round (tokens : List TokenId) (budgetRemaining : Nat)
      (limitReason : FinishReason)
  | terminal (reason : FinishReason)

namespace SessionCall

/-- The tokens a call hands to the session. -/
def tokens : SessionCall → List TokenId
  | round tokens _ _ => tokens
  | terminal _ => []

/-- The preview a call asks for. -/
def preview (s : OutputSession) :
    SessionCall → Except Exception (OutputDecision × OutputSession)
  | round tokens budgetRemaining limitReason =>
    s.preview tokens budgetRemaining limitReason
  | terminal reason => s.previewTerminal reason

end SessionCall

/-- What the owner has seen of a generation: the tokens accepted, what
each commit published, and how it ended (`none`: it goes on). -/
structure Transcript where
  session : OutputSession
  accepted : List TokenId
  commits : List PublishedOutput
  reason : FinishReason

namespace Transcript

/-- Before the first call. -/
def start (s : OutputSession) : Transcript := ⟨s, [], [], .none⟩

/-- A call is previewed and committed. -/
def call (t : Transcript) (c : SessionCall) : Except Exception Transcript :=
  match c.preview t.session with
  | .error e => .error e
  | .ok (decision, previewed) =>
    .ok
      { session := previewed.commitPreview.2
        accepted := t.accepted ++ c.tokens.take decision.acceptedTokens
        commits := t.commits ++ [previewed.commitPreview.1]
        reason := decision.finishReason }

/-- The owner's calls, until one finishes the generation. -/
def serve : Transcript → List SessionCall → Except Exception Transcript
  | t, [] => .ok t
  | t, c :: rest =>
    if t.reason ≠ .none then .ok t
    else
      match t.call c with
      | .error e => .error e
      | .ok t' => serve t' rest

/-- The text published on a channel, over all commits. -/
def published (t : Transcript) (channel : OutputChannel) : Bytes :=
  t.commits.flatMap (textOn channel)

end Transcript

end Ginfer.Frontend
