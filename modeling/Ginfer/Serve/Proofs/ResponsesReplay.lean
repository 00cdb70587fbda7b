/-
A conversation continued by id, and the same conversation sent again.

A `Round` is a request with its response. Continuing by id composes the
turns the rounds stored; sending again parses the canonical items of every
input and the items of every output, with the new input after them. The two
agree exactly when (`responses_chain_iff`)

- no call has a name with a dot, which the input parser refuses;
- every response is a text or calls, and not both or neither: the stored
  turn is one, and the items of both are two turns;
- no call of a response is next to a call of an input, which would join
  its turn;
- no id comes twice.
-/
import Ginfer.Serve.Proofs.ResponsesInput
import Ginfer.Serve.Proofs.ServedMessage

namespace Ginfer.Serve.Responses

open Ginfer.Lib Ginfer.Frontend List OutputItem
open Ginfer.Frontend.ChatTemplate (ChatRole)

-- ============ the rounds

/-- A request that was accepted, and its completed response. -/
structure Round (text : JsonText) where
  input : Json
  inputDraws : Nat → UInt64
  values : List Json
  parsed : ParsedInput
  toolCapable : Bool
  generation : Generation
  callDraws : Nat → UInt64
  itemDraws : Nat → UInt64
  drawn : Nat
  ids : ItemIds
  has_values : inputValues input = .ok values
  accepted : parseInput text inputDraws input = .ok parsed
  completed : responseStatus generation.finishReason = .completed

namespace Round

variable {text : JsonText} (r : Round text)

/-- The outcome of the generation. -/
def outcome : GenerationOutcome :=
  outcomeWithin text r.callDraws r.toolCapable 64 r.generation

/-- The response to the request. -/
def response : BuiltResponse Unit :=
  buildResponse r.itemDraws r.drawn () 0 r.outcome r.ids

/-- The output items, as the client has them. -/
def output : List Json := r.response.body.output.map toJson

end Round

/-- The stored context after some rounds. -/
def contextOf {text : JsonText} (context : ResponseContext) :
    List (Round text) → ResponseContext
  | [] => context
  | r :: rest =>
    contextOf (terminalContext context r.parsed.turns
      r.response.outputHistory) rest

/-- What the client sends again: the items of every input and of every
output, and the new input. -/
def replayParts {text : JsonText} (rounds : List (Round text))
    (values : List Json) : List (List Json) :=
  rounds.flatMap (fun r => [r.parsed.items, r.output]) ++ [values]

theorem flatten_contextOf {text : JsonText} (context : ResponseContext)
    (rounds : List (Round text)) :
    flattenResponseContext (contextOf context rounds)
      = flattenResponseContext context ++ (rounds.flatMap fun r =>
        [r.parsed.turns, r.response.outputHistory]).flatten := by
  induction rounds generalizing context with
  | nil => simp [contextOf]
  | cons r rest ih =>
    show flattenResponseContext (contextOf _ rest) = _
    rw [ih]
    simp [flattenResponseContext, terminalContext, appendResponseContext,
      ResponseContext.nodes]

-- ============ the outputs

/-- The turn of a text. -/
def textTurn (text : Bytes) : ChatTurn :=
  { role := .assistant, content := [.text text (ascii "output_text")] }

/-- What the output items of an outcome say. -/
def outputMeanings (outcome : GenerationOutcome) : List Meaning :=
  (if outcome.reasoning.isEmpty then []
    else [.reasoning outcome.reasoning])
  ++ (if !outcome.text.isEmpty || outcome.toolCalls.isEmpty then
      [.message (textTurn outcome.text)]
    else [])
  ++ outcome.toolCalls.map .call

section

variable {text : JsonText} {outcome : GenerationOutcome}

theorem idOr_ne_nil (draws : Nat → UInt64) (drawn : Nat) (kind : String)
    (id : Bytes) : ∃ b rest, (idOr draws drawn kind id).1 = b :: rest := by
  unfold idOr
  cases id with
  | nil =>
    refine exists_cons_of_ne_nil ?_
    show randomId draws drawn kind ≠ []
    unfold randomId
    rw [append_assoc]
    exact append_ne_nil_of_right_ne_nil _
      (append_ne_nil_of_left_ne_nil (cons_ne_nil _ _) _)
  | cons b rest => exact ⟨b, rest, rfl⟩

/-- The item of reasoning is read as reasoning. -/
theorem reasoning_accepted (b : UInt8) (rest : Bytes) (status : Status)
    (reasoning : Bytes) :
    ∃ r, Accepts text
        (OutputItem.reasoning (b :: rest) status [reasoning]).toJson r
      ∧ r.meaning = .reasoning reasoning := by
  have hvalue : reasoningValue
      (OutputItem.reasoning (b :: rest) status [reasoning]).toJson
      = .ok ([reasoning].flatten, _) := rfl
  rw [show [reasoning].flatten = reasoning from append_nil _] at hvalue
  exact ⟨_, ⟨readValue_reasoning rfl rfl hvalue, .inr ⟨b, rest, rfl⟩⟩, rfl⟩

/-- A completed message is read as the turn of its text. -/
theorem message_accepted (b : UInt8) (rest : Bytes) (content : Bytes) :
    ∃ r, Accepts text (message (b :: rest) .completed [content]).toJson r
      ∧ r.meaning = .message (textTurn content) := by
  have hvalue : messageValue (message (b :: rest) .completed [content]).toJson 0
      = .ok (textTurn content, _) := rfl
  exact ⟨_, ⟨readValue_message rfl rfl hvalue, .inr ⟨b, rest, rfl⟩⟩, rfl⟩

variable {draws : Nat → UInt64}

/-- A call is read, unless its name has a dot. -/
theorem call_accepted {call : ToolCall} (hlawful : text.Lawful)
    (h : WellMade text.api (newToolCallId draws) 64 call) (b : UInt8)
    (rest : Bytes) :
    ((0x2e : UInt8) ∉ call.name → ∃ r, Accepts text
        (functionCall (b :: rest) .completed call.id call.name
        call.argumentsJson).toJson r ∧ r.meaning = .call call)
    ∧ (∀ r, Accepts text (functionCall (b :: rest) .completed call.id call.name
        call.argumentsJson).toJson r → (0x2e : UInt8) ∉ call.name) := by
  obtain ⟨members, hparse, -⟩ := h.arguments_parse hlawful
  obtain ⟨c, more, hid⟩ := h.id_ne_nil
  have hwritten := functionCallValue_written (b :: rest) call
    (by rw [hid]; exact cons_ne_nil c more) ⟨members, hparse⟩
  constructor
  · intro hdot
    rw [if_pos ((isValidFunctionName_iff h.name).mpr hdot)] at hwritten
    exact ⟨_, ⟨readValue_call rfl rfl hwritten, .inr ⟨b, rest, rfl⟩⟩, rfl⟩
  · rintro r ⟨hread, -⟩
    intro hdot
    have hinvalid : ¬ isValidFunctionName 64 call.name = true :=
      fun hvalid => (isValidFunctionName_iff h.name).mp hvalid hdot
    rw [if_neg hinvalid] at hwritten
    change (functionCallValue text
      (canonicalItem (b :: rest) (callMembers call)) >>= _) = _ at hread
    rw [hwritten] at hread
    cases hread

/-- The items of the calls are read, unless a name has a dot. -/
theorem calls_accepted {calls : List ToolCall} (hlawful : text.Lawful)
    (h : ∀ c ∈ calls, WellMade text.api (newToolCallId draws) 64 c)
    (itemDraws : Nat → UInt64) (drawn : Nat) (ids : List Bytes) :
    ((∀ c ∈ calls, (0x2e : UInt8) ∉ c.name) → ∃ rs, List.Forall₂ (Accepts text)
        ((functionCallItems itemDraws drawn ids calls).map toJson) rs
        ∧ rs.map Reading.meaning = calls.map .call)
    ∧ (∀ rs, List.Forall₂ (Accepts text)
        ((functionCallItems itemDraws drawn ids calls).map toJson) rs →
        ∀ c ∈ calls, (0x2e : UInt8) ∉ c.name) := by
  induction calls generalizing drawn ids with
  | nil =>
    exact ⟨fun _ => ⟨[], .nil, rfl⟩, fun _ _ => forall_mem_nil _⟩
  | cons call rest ih =>
    obtain ⟨b, more, hid⟩ :=
      idOr_ne_nil itemDraws drawn "fc" (ids.headD [])
    obtain ⟨hok, hbad⟩ :=
      call_accepted hlawful (h call (.head _)) b more
    obtain ⟨ihok, ihbad⟩ := ih (fun c hc => h c (.tail _ hc))
      (idOr itemDraws drawn "fc" (ids.headD [])).2 ids.tail
    have hitems : functionCallItems itemDraws drawn ids (call :: rest)
        = .functionCall (b :: more) .completed call.id call.name
            call.argumentsJson
          :: functionCallItems itemDraws
              (idOr itemDraws drawn "fc" (ids.headD [])).2 ids.tail
              rest := by
      rw [← hid]
      rfl
    rw [hitems, map_cons]
    constructor
    · intro hdots
      obtain ⟨r, hr, hmeaning⟩ := hok (hdots call (.head _))
      obtain ⟨rs, hrs, hmeanings⟩ :=
        ihok fun c hc => hdots c (.tail _ hc)
      refine ⟨r :: rs, .cons hr hrs, ?_⟩
      rw [map_cons, map_cons, hmeaning, hmeanings]
    · intro rs hrs
      cases hrs with
      | cons hr hrs =>
        exact forall_mem_cons.mpr ⟨hbad _ hr, ihbad _ hrs⟩

/-- The items of a completed outcome. -/
theorem outputItems_eq (draws : Nat → UInt64) (drawn : Nat) (ids : ItemIds)
    (hcompleted : responseStatus outcome.finishReason = .completed) :
    ∃ (reasoning message : List OutputItem) (drawn' : Nat),
      outputItems draws drawn ids outcome
        = reasoning ++ message ++ functionCallItems draws drawn'
        ids.functionCalls outcome.toolCalls
      ∧ (if outcome.reasoning.isEmpty then reasoning = []
        else ∃ b rest status, reasoning
          = [.reasoning (b :: rest) status [outcome.reasoning]])
      ∧ (if !outcome.text.isEmpty || outcome.toolCalls.isEmpty then
        ∃ b rest, message = [.message (b :: rest) .completed [outcome.text]]
        else message = []) := by
  have hstatus : itemStatus outcome.finishReason = .completed := by
    unfold itemStatus
    rw [if_pos hcompleted]
  unfold outputItems
  rw [hstatus]
  by_cases hreasoning : outcome.reasoning.isEmpty = true
  · rw [if_pos hreasoning]
    dsimp only
    by_cases hmessage :
        (!outcome.text.isEmpty || outcome.toolCalls.isEmpty) = true
    · rw [if_pos hmessage]
      obtain ⟨b, rest, hid⟩ := idOr_ne_nil draws drawn "msg" ids.message
      refine ⟨[], _, _, rfl, ?_, ?_⟩
      · rw [if_pos hreasoning]
      · rw [if_pos hmessage]
        exact ⟨b, rest, by rw [hid]⟩
    · rw [if_neg hmessage]
      refine ⟨[], [], _, rfl, ?_, ?_⟩
      · rw [if_pos hreasoning]
      · rw [if_neg hmessage]
  · rw [if_neg hreasoning]
    dsimp only
    obtain ⟨c, more, hid'⟩ := idOr_ne_nil draws drawn "rs" ids.reasoning
    by_cases hmessage :
        (!outcome.text.isEmpty || outcome.toolCalls.isEmpty) = true
    · rw [if_pos hmessage]
      obtain ⟨b, rest, hid⟩ := idOr_ne_nil draws
        (idOr draws drawn "rs" ids.reasoning).2 "msg" ids.message
      refine ⟨_, _, _, rfl, ?_, ?_⟩
      · rw [if_neg hreasoning]
        exact ⟨c, more, reasoningStatus outcome, by rw [hid']⟩
      · rw [if_pos hmessage]
        exact ⟨b, rest, by rw [hid]⟩
    · rw [if_neg hmessage]
      refine ⟨_, [], _, rfl, ?_, ?_⟩
      · rw [if_neg hreasoning]
        exact ⟨c, more, reasoningStatus outcome, by rw [hid']⟩
      · rw [if_neg hmessage]

end

section

variable {text : JsonText} (r : Round text)

theorem Round.outcome_completed :
    responseStatus r.outcome.finishReason = .completed := r.completed

theorem Round.calls_made : ∀ c ∈ r.outcome.toolCalls,
    WellMade text.api (newToolCallId r.callDraws) 64 c :=
  runCollected_made ⟨r.toolCapable, 64⟩ r.generation

/-- The output items of a round are read, unless a name has a dot. -/
theorem Round.output_accepted (hlawful : text.Lawful) :
    ((∀ c ∈ r.outcome.toolCalls, (0x2e : UInt8) ∉ c.name) → ∃ rs,
        List.Forall₂ (Accepts text) r.output rs
        ∧ rs.map Reading.meaning = outputMeanings r.outcome)
    ∧ (∀ rs, List.Forall₂ (Accepts text) r.output rs →
        ∀ c ∈ r.outcome.toolCalls, (0x2e : UInt8) ∉ c.name) := by
  obtain ⟨reasoning, message, drawn', hitems, hreasoning, hmessage⟩ :=
    outputItems_eq r.itemDraws r.drawn r.ids r.outcome_completed
  obtain ⟨hok, hbad⟩ := calls_accepted hlawful r.calls_made r.itemDraws
    drawn' r.ids.functionCalls
  have houtput : r.output = reasoning.map toJson ++ message.map toJson
      ++ (functionCallItems r.itemDraws drawn' r.ids.functionCalls
          r.outcome.toolCalls).map toJson := by
    show (outputItems _ _ _ _).map _ = _
    rw [hitems, map_append, map_append]
  have hfirst : ∃ rs, List.Forall₂ (Accepts text) (reasoning.map toJson) rs
      ∧ rs.map Reading.meaning = if r.outcome.reasoning.isEmpty then []
        else [.reasoning r.outcome.reasoning] := by
    by_cases hempty : r.outcome.reasoning.isEmpty = true
    · rw [if_pos hempty] at hreasoning ⊢
      subst hreasoning
      exact ⟨[], .nil, rfl⟩
    · rw [if_neg hempty] at hreasoning ⊢
      obtain ⟨b, rest, status, rfl⟩ := hreasoning
      obtain ⟨reading, hreading, hmeaning⟩ :=
        @reasoning_accepted text b rest status r.outcome.reasoning
      exact ⟨[reading], .cons hreading .nil, by rw [map_singleton, hmeaning]⟩
  have hsecond : ∃ rs, List.Forall₂ (Accepts text) (message.map toJson) rs
      ∧ rs.map Reading.meaning
        = if !r.outcome.text.isEmpty || r.outcome.toolCalls.isEmpty then
            [.message (textTurn r.outcome.text)]
          else [] := by
    by_cases hsome :
        (!r.outcome.text.isEmpty || r.outcome.toolCalls.isEmpty) = true
    · rw [if_pos hsome] at hmessage ⊢
      obtain ⟨b, rest, rfl⟩ := hmessage
      obtain ⟨reading, hreading, hmeaning⟩ :=
        @message_accepted text b rest r.outcome.text
      exact ⟨[reading], .cons hreading .nil, by rw [map_singleton, hmeaning]⟩
    · rw [if_neg hsome] at hmessage ⊢
      subst hmessage
      exact ⟨[], .nil, rfl⟩
  rw [houtput]
  constructor
  · intro hdots
    obtain ⟨rs₁, hrs₁, hm₁⟩ := hfirst
    obtain ⟨rs₂, hrs₂, hm₂⟩ := hsecond
    obtain ⟨rs₃, hrs₃, hm₃⟩ := hok hdots
    refine ⟨rs₁ ++ rs₂ ++ rs₃, rel_append (rel_append hrs₁ hrs₂) hrs₃, ?_⟩
    rw [map_append, map_append, hm₁, hm₂, hm₃]
    rfl
  · intro rs hrs
    have hcalls := forall₂_drop (reasoning.map toJson
      ++ message.map toJson).length hrs
    rw [drop_left] at hcalls
    exact hbad _ hcalls

end

-- ============ the grouping

/-- Calls after a turn of calls join it. -/
theorem placeAll_calls {turn : ChatTurn} (hrole : turn.role = .assistant)
    (hcontent : turn.content = []) (hcalls : turn.toolCalls ≠ [])
    (calls : List ToolCall) :
    placeAll ⟨[turn], none, true⟩ (calls.map .call)
      = some ⟨[{ turn with toolCalls := turn.toolCalls ++ calls }], none,
          true⟩ := by
  induction calls generalizing turn with
  | nil =>
    rw [append_nil]
    rfl
  | cons call rest ih =>
    have hjoins : Grouping.joins ⟨[turn], none, true⟩ = true := by
      simp [Grouping.joins, hrole, hcontent, hcalls]
    have hplace : place ⟨[turn], none, true⟩ (.call call)
        = some ⟨[{ turn with toolCalls := turn.toolCalls ++ [call] }],
            none, true⟩ := by
      unfold place
      rw [hjoins]
      rfl
    show (place _ _).bind _ = _
    rw [hplace]
    have hmore : turn.toolCalls ++ [call] ≠ [] :=
      append_ne_nil_of_left_ne_nil hcalls _
    have hrest := @ih { turn with toolCalls := turn.toolCalls ++ [call] }
      hrole hcontent hmore
    rw [show turn.toolCalls ++ [call] ++ rest
      = turn.toolCalls ++ call :: rest by simp] at hrest
    exact hrest

variable {outcome : GenerationOutcome}

/-- The items of a text or of calls make the turn that was stored. -/
theorem placeAll_outputs (h : outcome.text = [] ↔ outcome.toolCalls ≠ []) :
    ∃ can, placeAll {} (outputMeanings outcome)
      = some ⟨outputHistory outcome, none, can⟩ := by
  obtain ⟨content, reasoning, calls, _, _, _, _, _⟩ := outcome
  dsimp only at h
  cases calls with
  | nil =>
    cases content with
    | nil => exact absurd rfl (h.mp rfl)
    | cons b rest =>
      cases reasoning with
      | nil => exact ⟨_, rfl⟩
      | cons c more => exact ⟨_, rfl⟩
  | cons call calls =>
    obtain rfl := h.mpr (cons_ne_nil call calls)
    refine ⟨true, ?_⟩
    cases reasoning with
    | nil =>
      exact placeAll_calls rfl rfl (cons_ne_nil call []) calls
    | cons c more =>
      exact placeAll_calls rfl rfl (cons_ne_nil call []) calls

/-- A part that is an input of its own, with its turns. -/
def PartOk (text : JsonText) (part : List Json) (turns : List ChatTurn) :
    Prop :=
  ∃ rs, List.Forall₂ (Accepts text) part rs ∧ rs ≠ []
    ∧ ∃ can, placeAll {} (rs.map Reading.meaning) = some ⟨turns, none, can⟩

section

variable {text : JsonText} {values : List Json}

theorem accepts_unique {rs rs' : List Reading}
    (h : List.Forall₂ (Accepts text) values rs)
    (h' : List.Forall₂ (Accepts text) values rs') : rs = rs' := by
  induction h generalizing rs' with
  | nil =>
    cases h'
    rfl
  | cons haccepts _ ih =>
    cases h' with
    | cons haccepts' hrest' =>
      rw [Except.ok.inj (haccepts.1.symm.trans haccepts'.1), ih hrest']

/-- Calls among the items are calls among the readings. -/
theorem accepts_calls {rs : List Reading}
    (h : List.Forall₂ (Accepts text) values rs) :
    values.map isFunctionCall
      = (rs.map Reading.meaning).map Meaning.isCall := by
  induction h with
  | nil => rfl
  | cons haccepts _ ih =>
    rw [map_cons, map_cons, map_cons, ih, (readValue_kind haccepts.1).2]

theorem endsCall_congr {α β : Type} {p : α → Bool} {q : β → Bool}
    {xs : List α} {ys : List β} (h : xs.map p = ys.map q) :
    endsCall p xs = endsCall q ys := by
  have hends : ∀ {γ : Type} (f : γ → Bool) (zs : List γ),
      endsCall f zs = ((zs.map f).getLast?).getD false := by
    intro γ f zs
    unfold endsCall
    rw [getLast?_map]
    cases zs.getLast? with
    | none => rfl
    | some z => rfl
  rw [hends p xs, hends q ys, h]

theorem startsCall_congr {α β : Type} {p : α → Bool} {q : β → Bool}
    {xs : List α} {ys : List β} (h : xs.map p = ys.map q) :
    startsCall p xs = startsCall q ys := by
  cases xs with
  | nil =>
    cases ys with
    | nil => rfl
    | cons y ys => cases h
  | cons x xs =>
    cases ys with
    | nil => cases h
    | cons y ys => exact (cons.inj h).1

variable {parts : List (List Json)}

theorem partOk_seamless {rss : List (List Reading)} (after : Bool)
    (h : List.Forall₂ (List.Forall₂ (Accepts text)) parts rss) :
    seamless isFunctionCall after parts
      = seamless Meaning.isCall after
        (rss.map fun rs => rs.map Reading.meaning) := by
  induction h generalizing after with
  | nil => rfl
  | cons hpart _ ih =>
    rw [map_cons]
    unfold seamless
    rw [startsCall_congr (accepts_calls hpart),
      endsCall_congr (accepts_calls hpart), ih]

/-- The readings of the parts. -/
theorem parts_readings {turns : List (List ChatTurn)}
    (h : List.Forall₂ (PartOk text) parts turns) :
    ∃ rss, List.Forall₂ (List.Forall₂ (Accepts text)) parts rss
      ∧ List.Forall₂ (fun part turns => part ≠ []
        ∧ ∃ can, placeAll {} part = some ⟨turns, none, can⟩)
        (rss.map fun rs => rs.map Reading.meaning) turns := by
  induction h with
  | nil => exact ⟨[], .nil, .nil⟩
  | cons hpart _ ih =>
    obtain ⟨rs, hrs, hne, hplace⟩ := hpart
    obtain ⟨rss, hrss, hall⟩ := ih
    refine ⟨rs :: rss, .cons hrs hrss, .cons ⟨?_, hplace⟩ hall⟩
    exact fun hnil => hne (map_eq_nil_iff.mp hnil)

/-- Parts sent together are accepted with the turns they have alone if
and only if there is no seam and no id comes twice. -/
theorem parseInput_parts {turns : List (List ChatTurn)}
    (hvalues : inputValues (.array parts.flatten) = .ok parts.flatten)
    (h : List.Forall₂ (PartOk text) parts turns) :
    (∃ replay, parseInput text draws (.array parts.flatten) = .ok replay
        ∧ replay.turns = turns.flatten)
      ↔ seamless isFunctionCall false parts = true
        ∧ (takenIds draws 0 parts.flatten).Nodup := by
  obtain ⟨rss, hrss, hall⟩ := parts_readings h
  have hflat : List.Forall₂ (Accepts text) parts.flatten rss.flatten :=
    rel_flatten hrss
  obtain ⟨g, hg, hpending, hclean, hseam⟩ :=
    placeAll_parts Grouping.sound_initial rfl hall
  have hmeanings : (rss.map fun rs => rs.map Reading.meaning).flatten
      = rss.flatten.map Reading.meaning := by
    rw [map_flatten]
  rw [hmeanings] at hg
  rw [← partOk_seamless _ hrss] at hclean hseam
  constructor
  · rintro ⟨replay, hreplay, hturns⟩
    obtain ⟨values, rs, g', hvalues', hrs, hg', -, hnodup, rfl⟩ :=
      parseInput_ok_iff.mp hreplay
    obtain rfl := Except.ok.inj (hvalues.symm.trans hvalues')
    obtain rfl := accepts_unique hflat hrs
    obtain rfl := Option.some.inj (hg.symm.trans hg')
    refine ⟨?_, hnodup⟩
    by_contra hno
    have hless := hseam (Bool.not_eq_true _ |>.mp hno)
    rw [show g.turns = turns.flatten from hturns] at hless
    exact lt_irrefl _ hless
  · rintro ⟨hseams, hnodup⟩
    exact ⟨_, parseInput_ok_iff.mpr ⟨_, _, g, hvalues, hflat, hg, hpending,
      hnodup, rfl⟩, hclean hseams⟩

end

-- ============ the theorem

section

variable {text : JsonText}

theorem inputValues_ne_nil {input : Json}
    (h : inputValues input = .ok values) : values ≠ [] := by
  unfold inputValues at h
  split at h
  · cases h
    exact cons_ne_nil _ _
  · cases h
  · rename_i hne
    cases h
    exact hne
  · cases h

theorem inputValues_array (h : values ≠ []) :
    inputValues (.array values) = .ok values := by
  cases values with
  | nil => exact absurd rfl h
  | cons v rest => rfl

/-- An input that was accepted, with its readings. -/
theorem accepted_readings {input : Json} {parsed : ParsedInput}
    (hvalues : inputValues input = .ok values)
    (h : parseInput text draws input = .ok parsed) :
    ∃ rs, List.Forall₂ (Accepts text) values rs
      ∧ List.Forall₂ (Accepts text) parsed.items rs ∧ rs ≠ []
      ∧ ∃ can, placeAll {} (rs.map Reading.meaning)
        = some ⟨parsed.turns, none, can⟩ := by
  obtain ⟨values', rs, g, hvalues', hrs, hg, hpending, -, rfl⟩ :=
    parseInput_ok_iff.mp h
  obtain rfl := Except.ok.inj (hvalues.symm.trans hvalues')
  refine ⟨rs, hrs, canonicals_accepted hrs, ?_, g.canGroupFunctionCalls, ?_⟩
  · rintro rfl
    cases hrs
    exact inputValues_ne_nil hvalues rfl
  · rw [hg, ← hpending]

variable {xs : List Json}

theorem accepts_of_mem {rs : List Reading}
    (h : List.Forall₂ (Accepts text) xs rs) :
    ∀ x ∈ xs, ∃ r, Accepts text x r := by
  induction h with
  | nil => exact forall_mem_nil _
  | cons haccepts _ ih =>
    exact forall_mem_cons.mpr ⟨⟨_, haccepts⟩, ih⟩

theorem readings_of_mem {rs : List Reading}
    (h : List.Forall₂ (Accepts text) xs rs) :
    ∀ r ∈ rs, ∃ x, Accepts text x r := by
  induction h with
  | nil => exact forall_mem_nil _
  | cons haccepts _ ih =>
    exact forall_mem_cons.mpr ⟨⟨_, haccepts⟩, ih⟩

theorem accepts_all (h : ∀ x ∈ xs, ∃ r, Accepts text x r) :
    ∃ rs, List.Forall₂ (Accepts text) xs rs := by
  induction xs with
  | nil => exact ⟨[], .nil⟩
  | cons x rest ih =>
    obtain ⟨r, hr⟩ := h x (.head _)
    obtain ⟨rs, hrs⟩ := ih fun y hy => h y (.tail _ hy)
    exact ⟨r :: rs, .cons hr hrs⟩

/-- The turn that was stored has a text or calls when the outcome has. -/
theorem outputHistory_oneSided
    (h : ∀ turn ∈ outputHistory outcome, OneSided turn) :
    outcome.text = [] ↔ outcome.toolCalls ≠ [] := by
  have hturn := h _ (mem_singleton_self _)
  unfold OneSided at hturn
  dsimp only at hturn
  rw [← hturn]
  cases outcome.text with
  | nil => exact ⟨fun _ => rfl, fun _ => rfl⟩
  | cons b rest => exact ⟨nofun, nofun⟩

variable {rounds : List (Round text)} {values : List Json}

/-- The items the next request begins with. -/
def nextValues (rounds : List (Round text)) (values : List Json) : List Json :=
  match rounds with
  | [] => values
  | r :: _ => r.values

/-- When a conversation sent again is the conversation continued. -/
structure Replayable (draws : Nat → UInt64) (rounds : List (Round text))
    (values : List Json) : Prop where
  /-- No function has a dot in its name. -/
  names : ∀ r ∈ rounds, ∀ c ∈ r.outcome.toolCalls, (0x2e : UInt8) ∉ c.name
  /-- A response is a text or calls. -/
  oneSided : ∀ r ∈ rounds, r.outcome.text = [] ↔ r.outcome.toolCalls ≠ []
  /-- Calls do not follow a call of their input. -/
  before : ∀ r ∈ rounds, r.outcome.reasoning = [] →
    r.outcome.toolCalls ≠ [] → endsCall isFunctionCall r.values = false
  /-- No call of an input follows calls. -/
  after : ∀ earlier r later, rounds = earlier ++ r :: later →
    r.outcome.toolCalls ≠ [] →
    startsCall isFunctionCall (nextValues later values) = false
  /-- No id comes twice. -/
  ids : (takenIds draws 0 (replayParts rounds values).flatten).Nodup

theorem outputMeanings_ends (h : outcome.text = [] ↔ outcome.toolCalls ≠ []) :
    outputMeanings outcome ≠ []
      ∧ (endsCall Meaning.isCall (outputMeanings outcome) = true
        ↔ outcome.toolCalls ≠ [])
      ∧ (startsCall Meaning.isCall (outputMeanings outcome) = true
        ↔ outcome.reasoning = [] ∧ outcome.toolCalls ≠ []) := by
  obtain ⟨content, reasoning, calls, _, _, _, _, _⟩ := outcome
  dsimp only at h ⊢
  cases calls with
  | nil =>
    cases content with
    | nil => exact absurd rfl (h.mp rfl)
    | cons b rest =>
      cases reasoning with
      | nil => simp [outputMeanings, endsCall, startsCall, Meaning.isCall]
      | cons c more => simp [outputMeanings, endsCall, startsCall, Meaning.isCall]
  | cons call calls =>
    obtain rfl := h.mpr (cons_ne_nil call calls)
    have hlast : endsCall Meaning.isCall
        (Meaning.call call :: calls.map .call) = true := by
      unfold endsCall
      rw [← map_cons, getLast?_map,
        getLast?_eq_some_getLast (cons_ne_nil call calls)]
      rfl
    cases reasoning with
    | nil =>
      refine ⟨cons_ne_nil _ _, ?_, ?_⟩
      · exact ⟨fun _ => cons_ne_nil _ _, fun _ => hlast⟩
      · exact ⟨fun _ => ⟨rfl, cons_ne_nil _ _⟩, fun _ => rfl⟩
    | cons c more =>
      refine ⟨cons_ne_nil _ _, ?_, ?_⟩
      · refine ⟨fun _ => cons_ne_nil _ _, fun _ => ?_⟩
        exact hlast
      · exact ⟨nofun, fun hno => absurd hno.1 (cons_ne_nil _ _)⟩

/-- The input of a round, as a part. -/
theorem Round.input_part (r : Round text) :
    PartOk text r.parsed.items r.parsed.turns
      ∧ r.parsed.items.map isFunctionCall
        = r.values.map isFunctionCall := by
  obtain ⟨rs, hvalues, hitems, hne, hplace⟩ :=
    accepted_readings r.has_values r.accepted
  exact ⟨⟨rs, hitems, hne, hplace⟩,
    (accepts_calls hitems).trans (accepts_calls hvalues).symm⟩

/-- The output of a round, as a part. -/
theorem Round.output_part (hlawful : text.Lawful) (r : Round text)
    (hnames : ∀ c ∈ r.outcome.toolCalls, (0x2e : UInt8) ∉ c.name)
    (hone : r.outcome.text = [] ↔ r.outcome.toolCalls ≠ []) :
    PartOk text r.output r.response.outputHistory
      ∧ (endsCall isFunctionCall r.output = true ↔ r.outcome.toolCalls ≠ [])
      ∧ (startsCall isFunctionCall r.output = true
        ↔ r.outcome.reasoning = [] ∧ r.outcome.toolCalls ≠ []) := by
  obtain ⟨rs, hrs, hmeanings⟩ := (r.output_accepted hlawful).1 hnames
  obtain ⟨hne, hends, hstarts⟩ := outputMeanings_ends hone
  have hcalls := accepts_calls hrs
  rw [hmeanings] at hcalls
  refine ⟨⟨rs, hrs, ?_, ?_⟩, ?_, ?_⟩
  · rintro rfl
    exact hne hmeanings.symm
  · rw [hmeanings]
    exact placeAll_outputs hone
  · rw [endsCall_congr hcalls]
    exact hends
  · rw [startsCall_congr hcalls]
    exact hstarts

/-- The turns of the parts. -/
def chainTurns (rounds : List (Round text)) (turns : List ChatTurn) :
    List (List ChatTurn) :=
  rounds.flatMap (fun r => [r.parsed.turns, r.response.outputHistory]) ++ [turns]

variable {turns : List ChatTurn}

variable (hlawful : text.Lawful)
  (hnames : ∀ r ∈ rounds, ∀ c ∈ r.outcome.toolCalls, (0x2e : UInt8) ∉ c.name)
  (hone : ∀ r ∈ rounds, r.outcome.text = [] ↔ r.outcome.toolCalls ≠ [])

include hlawful hnames hone

theorem replayParts_ok (hvalues : PartOk text values turns) :
    List.Forall₂ (PartOk text) (replayParts rounds values)
      (chainTurns rounds turns) := by
  induction rounds with
  | nil => exact .cons hvalues .nil
  | cons r rest ih =>
    obtain ⟨hnames, hnames'⟩ := forall_mem_cons.mp hnames
    obtain ⟨hone, hone'⟩ := forall_mem_cons.mp hone
    exact .cons r.input_part.1
      (.cons (r.output_part hlawful hnames hone).1 (ih hnames' hone'))

/-- Where the seams are. -/
theorem replayParts_seamless (flag : Bool) :
    seamless isFunctionCall flag (replayParts rounds values) = true
      ↔ (flag = true →
        startsCall isFunctionCall (nextValues rounds values) = false)
        ∧ (∀ r ∈ rounds, r.outcome.reasoning = [] → r.outcome.toolCalls ≠ [] →
        endsCall isFunctionCall r.values = false)
        ∧ ∀ earlier r later, rounds = earlier ++ r :: later →
        r.outcome.toolCalls ≠ [] →
        startsCall isFunctionCall (nextValues later values) = false := by
  induction rounds generalizing flag with
  | nil =>
    have hnone : ∀ (earlier : List (Round text)) r later,
        [] = earlier ++ r :: later → False := by
      intro earlier r later h
      exact absurd h.symm (by simp)
    show (!(flag && startsCall isFunctionCall values) && true) = true ↔ _
    rw [Bool.and_true, Bool.not_eq_true', Bool.and_eq_false_imp]
    refine ⟨fun h => ⟨h, forall_mem_nil _, ?_⟩, fun h => h.1⟩
    exact fun earlier r later h => absurd h (hnone earlier r later)
  | cons r rest ih =>
    obtain ⟨hnames, hnames'⟩ := forall_mem_cons.mp hnames
    obtain ⟨hone, hone'⟩ := forall_mem_cons.mp hone
    obtain ⟨-, hends, hstarts⟩ := r.output_part hlawful hnames hone
    have hinput := r.input_part.2
    have hparts : seamless isFunctionCall flag (replayParts (r :: rest) values)
        = (!(flag && startsCall isFunctionCall r.values)
          && (!(endsCall isFunctionCall r.values
              && startsCall isFunctionCall r.output)
            && seamless isFunctionCall (endsCall isFunctionCall r.output)
              (replayParts rest values))) := by
      rw [← startsCall_congr hinput, ← endsCall_congr hinput]
      rfl
    rw [hparts, Bool.and_eq_true, Bool.and_eq_true, Bool.not_eq_true',
      Bool.not_eq_true', ih hnames' hone', hends]
    have hfirst : (flag && startsCall isFunctionCall r.values) = false
        ↔ (flag = true → startsCall isFunctionCall r.values = false) :=
      Bool.and_eq_false_imp
    have hsecond : (endsCall isFunctionCall r.values
          && startsCall isFunctionCall r.output) = false
        ↔ (r.outcome.reasoning = [] → r.outcome.toolCalls ≠ [] →
          endsCall isFunctionCall r.values = false) := by
      rw [Bool.and_comm, Bool.and_eq_false_imp, hstarts, and_imp]
    rw [hfirst, hsecond, forall_mem_cons]
    constructor
    · rintro ⟨hflag, hbefore, hnext, hbefores, hafter⟩
      refine ⟨hflag, ⟨hbefore, hbefores⟩, ?_⟩
      intro earlier r' later hsplit
      cases earlier with
      | nil =>
        obtain ⟨rfl, rfl⟩ := cons.inj hsplit
        exact hnext
      | cons first earlier =>
        exact hafter earlier r' later (cons.inj hsplit).2
    · rintro ⟨hflag, ⟨hbefore, hbefores⟩, hafter⟩
      refine ⟨hflag, hbefore, hafter [] r rest rfl, hbefores, ?_⟩
      intro earlier r' later hsplit
      exact hafter (r :: earlier) r' later (congrArg (cons r) hsplit)

omit hlawful hnames hone

/-- A replay that agrees has no dots, and every response is one-sided. -/
theorem replay_sides (hlawful : text.Lawful) {replay : ParsedInput}
    (hreplay : parseInput text draws
      (.array (replayParts rounds values).flatten) = .ok replay)
    (hturns : replay.turns = (chainTurns rounds turns).flatten) :
    (∀ r ∈ rounds, ∀ c ∈ r.outcome.toolCalls, (0x2e : UInt8) ∉ c.name)
      ∧ ∀ r ∈ rounds,
        r.outcome.text = [] ↔ r.outcome.toolCalls ≠ [] := by
  obtain ⟨sent, rs, g, hsent, hrs, hg, -, -, rfl⟩ :=
    parseInput_ok_iff.mp hreplay
  have hsame : sent = (replayParts rounds values).flatten := by
    unfold inputValues at hsent
    split at hsent
    · cases ‹Json.array _ = _›
    · cases hsent
    · rename_i heq
      cases heq
      exact (Except.ok.inj hsent).symm
    · cases hsent
  subst hsame
  constructor
  · intro r hr
    have hpart : r.output ∈ replayParts rounds values := by
      refine mem_append_left _ (mem_flatMap.mpr ⟨r, hr, ?_⟩)
      exact .tail _ (mem_singleton_self _)
    obtain ⟨rs', hrs'⟩ := accepts_all fun x hx =>
      accepts_of_mem hrs x (mem_flatten.mpr ⟨r.output, hpart, hx⟩)
    exact (r.output_accepted hlawful).2 rs' hrs'
  · intro r hr
    refine outputHistory_oneSided fun turn hturn => ?_
    have hin : turn ∈ (chainTurns rounds turns).flatten := by
      refine mem_flatten.mpr ⟨r.response.outputHistory, ?_, hturn⟩
      refine mem_append_left _ (mem_flatMap.mpr ⟨r, hr, ?_⟩)
      exact .tail _ (mem_singleton_self _)
    rw [← hturns] at hin
    refine placeAll_oneSided Grouping.sound_initial ?_
      (forall_mem_nil _) hg turn hin
    intro m hm
    obtain ⟨reading, hreading, rfl⟩ := mem_map.mp hm
    obtain ⟨item, hitem⟩ := readings_of_mem hrs reading hreading
    exact readValue_oneSided hitem.1

/-- The messages agree when the turns do. -/
theorem compose_eq_iff {instructions : Option Bytes} {replayed : List ChatTurn} :
    composeGenerationMessages instructions [] replayed
        = composeGenerationMessages instructions
        (flattenResponseContext (contextOf .empty rounds)) turns
      ↔ replayed = (chainTurns rounds turns).flatten := by
  unfold composeGenerationMessages chainTurns
  rw [flatten_contextOf, append_nil, append_assoc, append_right_inj]
  simp [flattenResponseContext, ResponseContext.nodes]

/-- Continuing a conversation by id composes the messages that sending it
again composes, if and only if it is replayable. -/
theorem responses_chain_iff (text : JsonText) (hlawful : text.Lawful)
    (rounds : List (Round text)) (input : Json) (values : List Json)
    (nextDraws draws : Nat → UInt64) (next : ParsedInput)
    (instructions : Option Bytes) (hvalues : inputValues input = .ok values)
    (hnext : parseInput text nextDraws input = .ok next) :
    (∃ replay, parseInput text draws
          (.array (replayParts rounds values).flatten) = .ok replay
        ∧ composeGenerationMessages instructions [] replay.turns
          = composeGenerationMessages instructions
              (flattenResponseContext (contextOf .empty rounds))
              next.turns)
      ↔ Replayable draws rounds values := by
  obtain ⟨rs, hrs, -, hne, hplace⟩ := accepted_readings hvalues hnext
  have hpart : PartOk text values next.turns := ⟨rs, hrs, hne, hplace⟩
  have hsent : inputValues (.array (replayParts rounds values).flatten)
      = .ok (replayParts rounds values).flatten := by
    refine inputValues_array fun hnil => inputValues_ne_nil hvalues ?_
    refine flatten_eq_nil_iff.mp hnil values ?_
    exact mem_append_right _ (mem_singleton_self _)
  simp only [compose_eq_iff]
  constructor
  · rintro ⟨replay, hreplay, hturns⟩
    obtain ⟨hnames, hone⟩ := replay_sides hlawful hreplay hturns
    obtain ⟨hseams, hids⟩ := (parseInput_parts hsent
      (replayParts_ok hlawful hnames hone hpart)).mp
      ⟨replay, hreplay, hturns⟩
    obtain ⟨-, hbefore, hafter⟩ :=
      (replayParts_seamless hlawful hnames hone false).mp hseams
    exact ⟨hnames, hone, hbefore, hafter, hids⟩
  · rintro ⟨hnames, hone, hbefore, hafter, hids⟩
    refine (parseInput_parts hsent
      (replayParts_ok hlawful hnames hone hpart)).mpr ⟨?_, hids⟩
    exact (replayParts_seamless hlawful hnames hone false).mpr
      ⟨nofun, hbefore, hafter⟩

end

-- ============ two cases

/-- A question. -/
def question : Json := .string (ascii "q")

/-- The items of a question. -/
def questionValues : List Json :=
  [.ofMembers [(ascii "type", .string (ascii "message")),
    (ascii "role", .string (ascii "user")), (ascii "content", question)]]

/-- What is parsed of a question, with an id of one draw. -/
def questionParsed (draw : UInt64) : ParsedInput :=
  match parseInput jsonText (fun _ => draw) question with
  | .ok parsed => parsed
  | .error _ => ⟨[], []⟩

theorem question_accepted (draw : UInt64) :
    parseInput jsonText (fun _ => draw) question
      = .ok (questionParsed draw) := rfl

/-- A question and the response to it. -/
def sampleRound (toolCapable : Bool) (content : Bytes) : Round jsonText where
  input := question
  inputDraws := fun _ => 1
  values := questionValues
  parsed := questionParsed 1
  toolCapable := toolCapable
  generation := contentOnly content
  callDraws := fun _ => 0
  itemDraws := fun _ => 2
  drawn := 0
  ids := {}
  has_values := rfl
  accepted := question_accepted 1
  completed := rfl

/-- A question, an answer, and a question again. -/
theorem responses_chain_answer :
    let rounds := [sampleRound false (ascii "a")]
    ∃ replay, parseInput jsonText (fun _ => 3)
        (.array (replayParts rounds questionValues).flatten) = .ok replay
      ∧ composeGenerationMessages none [] replay.turns
        = composeGenerationMessages none
            (flattenResponseContext (contextOf .empty rounds))
            (questionParsed 3).turns := by
  intro rounds
  refine (responses_chain_iff jsonText jsonText_lawful rounds question
    questionValues (fun _ => 3) (fun _ => 3) (questionParsed 3) none rfl
    (question_accepted 3)).mpr ?_
  have hcalls : ∀ r ∈ rounds, r.outcome.toolCalls = [] := by
    intro r hr
    obtain rfl := mem_singleton.mp hr
    rfl
  refine ⟨?_, ?_, ?_, ?_, by decide +kernel⟩
  · intro r hr
    rw [hcalls r hr]
    exact forall_mem_nil _
  · intro r hr
    obtain rfl := mem_singleton.mp hr
    exact ⟨nofun, fun h => absurd rfl h⟩
  · intro r hr _ hsome
    exact absurd (hcalls r hr) hsome
  · intro earlier r later hsplit hsome
    refine absurd (hcalls r ?_) hsome
    rw [hsplit]
    exact mem_append_right _ mem_cons_self

/-- A text and a call of one response are a turn when they are continued
and two when they are sent again. -/
theorem responses_chain_text_and_call :
    let rounds := [sampleRound true
      (ascii "a<tool_call><function=f></function></tool_call>")]
    ¬ ∃ replay, parseInput jsonText (fun _ => 3)
        (.array (replayParts rounds questionValues).flatten) = .ok replay
      ∧ composeGenerationMessages none [] replay.turns
        = composeGenerationMessages none
            (flattenResponseContext (contextOf .empty rounds))
            (questionParsed 3).turns := by
  rintro rounds ⟨replay, hreplay, hturns⟩
  have hone := (replay_sides jsonText_lawful hreplay
    (compose_eq_iff.mp hturns)).2 _ mem_cons_self
  revert hone
  decide +kernel

end Ginfer.Serve.Responses
