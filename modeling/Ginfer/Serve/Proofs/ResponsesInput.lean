/-
How an input is grouped into turns.

What an item is, apart from its id, is its `Meaning`; reading a list of
items is reading each and placing the meanings one after the other
(`parseInput_ok_iff`). A list made of parts that are inputs of their own is
grouped into the turns of the parts, except at a seam: a function call that
begins a part joins the turn of the call that ends the part before, and
there is a turn less than there should be (`placeAll_parts`).

The canonical form of an item reads as the item did (`canonical_reads`).
-/
import Ginfer.Serve.ResponsesInput
import Mathlib.Data.List.ModifyLast

namespace Ginfer.Serve.Responses

open Ginfer.Lib Ginfer.Frontend List Option Except Prod
open Ginfer.Frontend.ChatTemplate (ChatRole)

-- ============ the meanings

/-- What an item says. -/
inductive Meaning where
  | message (turn : ChatTurn)
  | reasoning (text : Bytes)
  | call (call : ToolCall)
  | output (turn : ChatTurn)

/-- The item is a function call. -/
def Meaning.isCall : Meaning → Bool
  | .call _ => true
  | _ => false

/-- The turns an item begins, and the reasoning that waits after it. -/
def opens (pending : Option Bytes) :
    Meaning → Option (List ChatTurn × Option Bytes)
  | .message turn =>
    match pending with
    | none => some ([turn], none)
    | some reasoning =>
      if turn.role = .assistant then
        some ([{ turn with reasoningContent := reasoning }], none)
      else none
  | .reasoning text =>
    if pending.isSome then none else some ([], some text)
  | .call call =>
    some ([{ role := .assistant
             reasoningContent := pending.getD []
             toolCalls := [call] }], none)
  | .output turn => if pending.isSome then none else some ([turn], none)

/-- The last turn with one call more. -/
def Grouping.join (g : Grouping) : Meaning → Grouping
  | .call call =>
    ⟨g.turns.modifyLast fun turn =>
      { turn with toolCalls := turn.toolCalls ++ [call] }, none, true⟩
  | _ => g

/-- The grouping after one more item: a call may join the last turn, and
everything else depends on the reasoning that waits alone. -/
def place (g : Grouping) (m : Meaning) : Option Grouping :=
  if (m.isCall && g.joins) = true then some (g.join m)
  else
    (opens g.pendingReasoning m).map fun (more, pending) =>
      ⟨g.turns ++ more, pending, m.isCall⟩

/-- The grouping after a list of items. -/
def placeAll : Grouping → List Meaning → Option Grouping
  | g, [] => some g
  | g, m :: rest => (place g m).bind fun g => placeAll g rest

theorem placeAll_append (g : Grouping) (xs ys : List Meaning) :
    placeAll g (xs ++ ys)
      = (placeAll g xs).bind fun g => placeAll g ys := by
  induction xs generalizing g with
  | nil => rfl
  | cons m rest ih =>
    show (place g m).bind _ = ((place g m).bind _).bind _
    cases place g m with
    | none => rfl
    | some g => exact ih g

variable {g g' : Grouping} {m : Meaning}

/-- What a step can do. -/
theorem place_cases (h : place g m = some g') :
    (∃ call, m = .call call ∧ g.joins = true ∧ g' = g.join m)
    ∨ (m.isCall && g.joins) = false ∧ ∃ more pending,
        opens g.pendingReasoning m = some (more, pending)
        ∧ g' = ⟨g.turns ++ more, pending, m.isCall⟩ := by
  unfold place at h
  by_cases hjoins : (m.isCall && g.joins) = true
  · rw [if_pos hjoins] at h
    cases h
    rw [Bool.and_eq_true] at hjoins
    cases m with
    | call call => exact .inl ⟨call, rfl, hjoins.2, rfl⟩
    | message turn => cases hjoins.1
    | reasoning text => cases hjoins.1
    | output turn => cases hjoins.1
  · rw [if_neg hjoins] at h
    obtain ⟨⟨more, pending⟩, hopens, hsome⟩ := map_eq_some_iff.mp h
    exact .inr ⟨by simpa using hjoins, more, pending, hopens, hsome.symm⟩

/-- Whether calls can be grouped is whether the last item was one. -/
theorem place_canGroup
    (h : place g m = some g') : g'.canGroupFunctionCalls = m.isCall := by
  obtain ⟨call, rfl, -, rfl⟩ | ⟨-, more, pending, -, rfl⟩ := place_cases h
  · rfl
  · rfl

/-- Whether a list ends in a function call. -/
def endsCall {α : Type} (isCall : α → Bool) (items : List α) : Bool :=
  match items.getLast? with
  | some item => isCall item
  | none => false

/-- Whether a list begins with a function call. -/
def startsCall {α : Type} (isCall : α → Bool) : List α → Bool
  | [] => false
  | item :: _ => isCall item

variable {ms : List Meaning}

theorem placeAll_canGroup (h : placeAll g ms = some g') (hne : ms ≠ []) :
    g'.canGroupFunctionCalls = endsCall Meaning.isCall ms := by
  induction ms generalizing g with
  | nil => exact absurd rfl hne
  | cons m rest ih =>
    obtain ⟨g₁, hplace, hrest⟩ := bind_eq_some_iff.mp h
    cases rest with
    | nil =>
      cases hrest
      exact place_canGroup hplace
    | cons m' rest =>
      rw [ih hrest (cons_ne_nil _ _)]
      unfold endsCall
      rw [List.getLast?_cons_cons]

-- ============ the frame

/-- The last turn is one of function calls. -/
def LastCalls (turns : List ChatTurn) : Prop :=
  ∃ init turn, turns = init ++ [turn] ∧ turn.role = .assistant
    ∧ turn.content = [] ∧ turn.toolCalls ≠ []

/-- Calls can be grouped only after a turn of calls. -/
def Grouping.Sound (g : Grouping) : Prop :=
  g.canGroupFunctionCalls = true → LastCalls g.turns

theorem Grouping.sound_initial : Grouping.Sound {} := nofun

/-- A call joins the last turn when the item before was a call. -/
theorem Grouping.Sound.joins_eq (h : g.Sound) :
    g.joins = (g.canGroupFunctionCalls && g.pendingReasoning.isNone) := by
  unfold Grouping.joins
  cases hcan : g.canGroupFunctionCalls with
  | false => rfl
  | true =>
    obtain ⟨init, turn, hturns, hrole, hcontent, hcalls⟩ := h hcan
    rw [hturns, List.getLast?_concat]
    simp [hrole, hcontent, hcalls]

/-- Joining changes the last turn. -/
theorem Grouping.Sound.join_turns (h : g.Sound)
    (hjoins : g.joins = true) (call : ToolCall) :
    ∃ init turn, g.turns = init ++ [turn] ∧ turn.role = .assistant
      ∧ turn.content = [] ∧ turn.toolCalls ≠ []
      ∧ (g.join (.call call)).turns
        = init ++ [{ turn with toolCalls := turn.toolCalls ++ [call] }] := by
  rw [h.joins_eq, Bool.and_eq_true] at hjoins
  obtain ⟨init, turn, hturns, hrole, hcontent, hcalls⟩ := h hjoins.1
  refine ⟨init, turn, hturns, hrole, hcontent, hcalls, ?_⟩
  show g.turns.modifyLast _ = _
  rw [hturns, modifyLast_concat]

theorem place_sound (hsound : g.Sound)
    (h : place g m = some g') : g'.Sound := by
  intro hcan
  obtain ⟨call, rfl, hjoins, rfl⟩ | ⟨-, more, pending, hopens, rfl⟩ :=
    place_cases h
  · obtain ⟨init, turn, -, hrole, hcontent, hcalls, hturns⟩ :=
      hsound.join_turns hjoins call
    exact ⟨init, _, hturns, hrole, hcontent,
      append_ne_nil_of_left_ne_nil hcalls _⟩
  · cases m with
    | call call =>
      cases hopens
      exact ⟨g.turns, _, rfl, rfl, rfl, cons_ne_nil _ _⟩
    | message turn => cases hcan
    | reasoning text => cases hcan
    | output turn => cases hcan

/-- Two groupings in step: the same reasoning waits, and calls can be
grouped in both or in none. -/
structure InStep (g h : Grouping) : Prop where
  pending : g.pendingReasoning = h.pendingReasoning
  canGroup : g.canGroupFunctionCalls = h.canGroupFunctionCalls
  left : g.Sound
  right : h.Sound

variable {h : Grouping}

theorem InStep.joins (hstep : InStep g h) : g.joins = h.joins := by
  rw [hstep.left.joins_eq, hstep.right.joins_eq, hstep.pending, hstep.canGroup]

/-- A step takes two groupings in step to two in step, with as many turns
more on either side, and the same where the first has the turns of the
second after others. -/
theorem InStep.place {h' : Grouping}
    (hstep : InStep g h) (hplace : place h m = some h') :
    ∃ g', Responses.place g m = some g' ∧ InStep g' h'
      ∧ g'.turns.length + h.turns.length = g.turns.length + h'.turns.length
      ∧ ∀ before, g.turns = before ++ h.turns →
        g'.turns = before ++ h'.turns := by
  have hright := place_sound hstep.right hplace
  obtain ⟨call, rfl, hjoins, rfl⟩ | ⟨hjoins, more, pending, hopens, rfl⟩ :=
    place_cases hplace
  · have hjoins' : g.joins = true := hstep.joins.trans hjoins
    have hplace' : Responses.place g (.call call)
        = some (g.join (.call call)) := by
      unfold Responses.place
      rw [hjoins']
      rfl
    refine ⟨g.join (.call call), hplace',
      ⟨rfl, rfl, place_sound hstep.left hplace', hright⟩, ?_, ?_⟩
    · obtain ⟨init, turn, hturns, -, -, -, hjoined⟩ :=
        hstep.left.join_turns hjoins' call
      obtain ⟨init', turn', hturns', -, -, -, hjoined'⟩ :=
        hstep.right.join_turns hjoins call
      rw [hjoined, hjoined', hturns, hturns']
      simp
    · intro before hbefore
      obtain ⟨init, turn, hturns, -, -, -, hjoined⟩ :=
        hstep.right.join_turns hjoins call
      rw [hjoined]
      show g.turns.modifyLast _ = _
      rw [hbefore, hturns, ← append_assoc, modifyLast_concat, append_assoc]
  · have hplace' : Responses.place g m
        = some ⟨g.turns ++ more, pending, m.isCall⟩ := by
      unfold Responses.place
      rw [hstep.joins, hjoins, hstep.pending, hopens]
      rfl
    refine ⟨_, hplace', ⟨rfl, rfl, place_sound hstep.left hplace', hright⟩,
      ?_, ?_⟩
    · simp only [length_append]
      omega
    · intro before hbefore
      show g.turns ++ more = before ++ (h.turns ++ more)
      rw [hbefore, append_assoc]

theorem InStep.placeAll {h' : Grouping}
    (hstep : InStep g h) (hplace : placeAll h ms = some h') :
    ∃ g', Responses.placeAll g ms = some g' ∧ InStep g' h'
      ∧ g'.turns.length + h.turns.length = g.turns.length + h'.turns.length
      ∧ ∀ before, g.turns = before ++ h.turns →
        g'.turns = before ++ h'.turns := by
  induction ms generalizing g h with
  | nil =>
    cases hplace
    exact ⟨g, rfl, hstep, rfl, fun _ hbefore => hbefore⟩
  | cons m rest ih =>
    obtain ⟨h₁, hfirst, hrest⟩ := bind_eq_some_iff.mp hplace
    obtain ⟨g₁, hfirst', hstep₁, hlength₁, hbefore₁⟩ := hstep.place hfirst
    obtain ⟨g', hrest', hstep', hlength', hbefore'⟩ := ih hstep₁ hrest
    refine ⟨g', ?_, hstep', by omega,
      fun before hb => hbefore' before (hbefore₁ before hb)⟩
    show (Responses.place g m).bind _ = _
    rw [hfirst']
    exact hrest'

-- ============ the parts

/-- A part is grouped as it is alone, but for a call that begins it after
a call: that joins the turn before. -/
theorem placeAll_part {part : List Meaning}
    (hsound : g.Sound) (hpending : g.pendingReasoning = none)
    (hpart : placeAll {} part = some h) (hne : part ≠ []) :
    ∃ g', placeAll g part = some g' ∧ InStep g' h
      ∧ ((g.canGroupFunctionCalls && startsCall Meaning.isCall part) = false →
        g'.turns = g.turns ++ h.turns)
      ∧ ((g.canGroupFunctionCalls && startsCall Meaning.isCall part) = true →
        g'.turns.length < (g.turns ++ h.turns).length) := by
  cases part with
  | nil => exact absurd rfl hne
  | cons m rest =>
    obtain ⟨h₁, hfirst, hrest⟩ := bind_eq_some_iff.mp hpart
    have hsound₁ := place_sound Grouping.sound_initial hfirst
    have hjoins : g.joins = g.canGroupFunctionCalls := by
      rw [hsound.joins_eq, hpending]
      exact Bool.and_true _
    obtain ⟨call, -, hno, -⟩ | ⟨-, more, pending, hopens, hh₁⟩ :=
      place_cases hfirst
    · cases hno
    · by_cases hseam : (m.isCall && g.joins) = true
      · have hplace : place g m = some (g.join m) := if_pos hseam
        rw [Bool.and_eq_true] at hseam
        cases m with
        | call call =>
          cases hopens
          have hstep : InStep (g.join (.call call)) h₁ :=
            ⟨hh₁ ▸ rfl, hh₁ ▸ rfl, place_sound hsound hplace, hsound₁⟩
          obtain ⟨g', hrest', hstep', hlength, -⟩ :=
            hstep.placeAll hrest
          refine ⟨g', ?_, hstep', ?_, ?_⟩
          · show (place g _).bind _ = _
            rw [hplace]
            exact hrest'
          · intro hnot
            rw [← hjoins, hseam.2] at hnot
            cases hnot
          · intro _
            obtain ⟨init, turn, hturns, -, -, -, hjoined⟩ :=
              hsound.join_turns hseam.2 call
            rw [hjoined, hh₁] at hlength
            rw [hturns]
            simp only [length_append, length_cons, length_nil] at hlength ⊢
            omega
        | message turn => cases hseam.1
        | reasoning text => cases hseam.1
        | output turn => cases hseam.1
      · have hplace : place g m
            = some ⟨g.turns ++ more, pending, m.isCall⟩ := by
          unfold place
          rw [if_neg hseam, hpending, hopens]
          rfl
        have hstep : InStep ⟨g.turns ++ more, pending, m.isCall⟩ h₁ :=
          ⟨hh₁ ▸ rfl, hh₁ ▸ rfl, place_sound hsound hplace, hsound₁⟩
        obtain ⟨g', hrest', hstep', -, hbefore⟩ := hstep.placeAll hrest
        refine ⟨g', ?_, hstep', ?_, ?_⟩
        · show (place g m).bind _ = _
          rw [hplace]
          exact hrest'
        · intro _
          exact hbefore g.turns (by rw [hh₁]; rfl)
        · intro hyes
          rw [hjoins, Bool.and_comm] at hseam
          exact absurd hyes hseam

/-- No part after the first begins with a call where the part before ends
in one; `after` tells whether a call is before the first. -/
def seamless {α : Type} (isCall : α → Bool) :
    (after : Bool) → List (List α) → Bool
  | _, [] => true
  | after, part :: rest =>
    !(after && startsCall isCall part)
      && seamless isCall (endsCall isCall part) rest

/-- Parts are grouped as they are alone if there is no seam; if there is
one, there are fewer turns. -/
theorem placeAll_parts {parts : List (List Meaning)}
    {turns : List (List ChatTurn)} (hsound : g.Sound)
    (hpending : g.pendingReasoning = none)
    (hparts : List.Forall₂ (fun part turns => part ≠ []
      ∧ ∃ can, placeAll {} part = some ⟨turns, none, can⟩) parts turns) :
    ∃ g', placeAll g parts.flatten = some g' ∧ g'.pendingReasoning = none
      ∧ (seamless Meaning.isCall g.canGroupFunctionCalls parts = true →
        g'.turns = g.turns ++ turns.flatten)
      ∧ (seamless Meaning.isCall g.canGroupFunctionCalls parts = false →
        g'.turns.length < (g.turns ++ turns.flatten).length) := by
  induction hparts generalizing g with
  | nil =>
    refine ⟨g, rfl, hpending, fun _ => ?_, nofun⟩
    rw [flatten_nil, append_nil]
  | @cons part ts parts turns hpart hrest ih =>
    obtain ⟨hne, can, halone⟩ := hpart
    obtain ⟨g₁, hplace, hstep, hclean, hseam⟩ :=
      placeAll_part hsound hpending halone hne
    have hcan : g₁.canGroupFunctionCalls = endsCall Meaning.isCall part :=
      placeAll_canGroup hplace hne
    obtain ⟨g', hplace', hpending', hclean', hseam'⟩ :=
      ih hstep.left hstep.pending
    rw [hcan] at hclean' hseam'
    refine ⟨g', ?_, hpending', ?_, ?_⟩
    · rw [flatten_cons, placeAll_append, hplace]
      exact hplace'
    · intro hall
      unfold seamless at hall
      rw [Bool.and_eq_true, Bool.not_eq_true'] at hall
      rw [hclean' hall.2, hclean hall.1, flatten_cons, append_assoc]
    · intro hsome
      unfold seamless at hsome
      have hle : g'.turns.length ≤ (g₁.turns ++ turns.flatten).length := by
        cases hlater : seamless Meaning.isCall
            (endsCall Meaning.isCall part) parts with
        | true => exact le_of_eq (by rw [hclean' hlater])
        | false => exact le_of_lt (hseam' hlater)
      cases hfirst : g.canGroupFunctionCalls
          && startsCall Meaning.isCall part with
      | true =>
        have hless := hseam hfirst
        simp only [flatten_cons, length_append] at hle hless ⊢
        omega
      | false =>
        rw [hfirst] at hsome
        have hless := hseam' (by simpa using hsome)
        rw [hclean hfirst] at hless
        simpa only [flatten_cons, append_assoc] using hless

-- ============ reading items

/-- What was read of an item: what it says, the kind of its ids, and the
members of its canonical form. -/
structure Reading where
  meaning : Meaning
  kind : String
  members : List (Bytes × Json)

/-- What an item says, apart from its id and from what came before. -/
def readValue (text : JsonText) (item : Json) (index : Nat) :
    Except ApiError Reading :=
  if !item.isObject then
    badInput (ascii "input Item " ++ indexText index
      ++ ascii " must be an object")
  else do
    let type ← itemType item
    if type = ascii "message" then do
      let (turn, members) ← messageValue item index
      .ok ⟨.message turn, "msg", members⟩
    else if type = ascii "reasoning" then do
      let (text, members) ← reasoningValue item
      .ok ⟨.reasoning text, "rs", members⟩
    else if type = ascii "function_call" then do
      let (call, members) ← functionCallValue text item
      .ok ⟨.call call, "fc", members⟩
    else if type = ascii "function_call_output" then do
      let (turn, members) ← functionCallOutputValue item
      .ok ⟨.output turn, "fco", members⟩
    else
      badInput (ascii "unsupported input Item type: " ++ type)
        "item_type_not_supported"

section

variable {text : JsonText} {draws : Nat → UInt64} {s s' : InputState}
  {item : Json} {index : Nat}

/-- What an iteration leaves. -/
def InputState.after (s : InputState) (g : Grouping) (id : Bytes)
    (members : List (Bytes × Json)) (drawn : Nat) : InputState :=
  ⟨g, s.items ++ [canonicalItem id members], s.ids ++ [id], drawn⟩

/-- An item with an entry is kept if its id is new. -/
theorem entry_keep_ok_iff {α : Type} {kind : String}
    {read : Except ApiError (α × List (Bytes × Json))}
    {group : α → Except ApiError Grouping} :
    (do
      let entry ← entryOf draws s.drawn item kind read
      let grouping ← group entry.value
      s.keep entry grouping) = .ok s'
    ↔ ∃ value members id drawn g, read = .ok (value, members)
      ∧ itemId draws s.drawn item kind = .ok (id, drawn)
      ∧ group value = .ok g ∧ id ∉ s.ids
      ∧ s' = s.after g id members drawn := by
  constructor
  · intro h
    obtain ⟨entry, hentry, h⟩ := bind_ok.mp h
    obtain ⟨g, hg, h⟩ := bind_ok.mp h
    obtain ⟨⟨value, members⟩, hread, hentry⟩ := bind_ok.mp hentry
    obtain ⟨⟨id, drawn⟩, hid, hentry⟩ := bind_ok.mp hentry
    cases hentry
    unfold InputState.keep at h
    by_cases hmem : id ∈ s.ids
    · rw [if_pos hmem] at h
      cases h
    · rw [if_neg hmem] at h
      cases h
      exact ⟨value, members, id, drawn, g, hread, hid, hg, hmem, rfl⟩
  · rintro ⟨value, members, id, drawn, g, hread, hid, hg, hmem, rfl⟩
    unfold entryOf
    rw [hread, ok_bind]
    dsimp only
    rw [hid, ok_bind, ok_bind]
    dsimp only
    rw [hg, ok_bind]
    exact if_neg hmem

variable {g : Grouping} {turn : ChatTurn}

theorem message_ok_iff {g' : Grouping} :
    g.message turn = .ok g' ↔ place g (.message turn) = some g' := by
  unfold Grouping.message place opens
  cases g.pendingReasoning with
  | none => exact ⟨fun h => by cases h; rfl, fun h => by cases h; rfl⟩
  | some reasoning =>
    by_cases hrole : turn.role = .assistant
    · simp only [hrole, ne_eq, not_true_eq_false, if_false, if_true]
      exact ⟨fun h => by cases h; rfl, fun h => by cases h; rfl⟩
    · simp only [hrole, ne_eq, not_false_eq_true, if_false, if_true]
      exact ⟨nofun, nofun⟩

theorem place_call (g : Grouping) (call : ToolCall) :
    place g (.call call) = some (g.functionCall call) := by
  unfold place Grouping.functionCall
  show (if g.joins = true then _ else _) = _
  by_cases hjoins : g.joins = true
  · rw [if_pos hjoins, if_pos hjoins]
    rfl
  · rw [if_neg hjoins, if_neg hjoins]
    rfl

/-- An iteration on an item of a known type. -/
theorem kindStep_ok_iff {α : Type} {kind : String}
    {read : Except ApiError (α × List (Bytes × Json))}
    (group : α → Except ApiError Grouping) {meaning : α → Meaning}
    (hgroup : ∀ value g, group value = .ok g
      ↔ place s.grouping (meaning value) = some g) :
    (do
      let entry ← entryOf draws s.drawn item kind read
      let grouping ← group entry.value
      s.keep entry grouping) = .ok s'
    ↔ ∃ r id drawn g,
      (do
        let (value, members) ← read
        ok (Reading.mk (meaning value) kind members)) = .ok r
      ∧ itemId draws s.drawn item r.kind = .ok (id, drawn)
      ∧ place s.grouping r.meaning = some g ∧ id ∉ s.ids
      ∧ s' = s.after g id r.members drawn := by
  rw [entry_keep_ok_iff]
  constructor
  · rintro ⟨value, members, id, drawn, g, hread, hid, hg, hnew, hs⟩
    refine ⟨⟨meaning value, kind, members⟩, id, drawn, g, ?_, hid,
      (hgroup value g).mp hg, hnew, hs⟩
    rw [hread]
    rfl
  · rintro ⟨r, id, drawn, g, hread, hid, hg, hnew, hs⟩
    obtain ⟨⟨value, members⟩, hvalue, hread⟩ := bind_ok.mp hread
    cases hread
    exact ⟨value, members, id, drawn, g, hvalue, hid,
      (hgroup value g).mpr hg, hnew, hs⟩

/-- An item that cannot follow reasoning is not placed after it. -/
theorem not_placed {g' : Grouping} {m : Meaning}
    (hpending : g.pendingReasoning.isSome = true) (hcall : m.isCall = false)
    (hopens : ∀ reasoning, opens (some reasoning) m = none) :
    place g m ≠ some g' := by
  obtain ⟨reasoning, hsome⟩ := isSome_iff_exists.mp hpending
  unfold place
  rw [hcall, hsome, hopens]
  exact nofun

/-- An item that cannot follow reasoning, where none waits. -/
theorem placed {m : Meaning} {more : List ChatTurn} {pending : Option Bytes}
    (hpending : ¬ g.pendingReasoning.isSome = true) (hcall : m.isCall = false)
    (hopens : opens none m = some (more, pending)) :
    place g m = some ⟨g.turns ++ more, pending, false⟩ := by
  have hnone : g.pendingReasoning = none := by simpa using hpending
  unfold place
  rw [hcall, hnone, hopens]
  rfl

/-- An iteration reads the item, places it, and keeps it under an id that
is new. -/
theorem inputStep_ok_iff : inputStep text draws s item index = .ok s'
    ↔ ∃ r id drawn g, readValue text item index = .ok r
      ∧ itemId draws s.drawn item r.kind = .ok (id, drawn)
      ∧ place s.grouping r.meaning = some g ∧ id ∉ s.ids
      ∧ s' = s.after g id r.members drawn := by
  unfold inputStep readValue
  by_cases hobject : item.isObject = true
  · rw [hobject]
    show (itemType item >>= _) = _ ↔ ∃ r id drawn g,
      (itemType item >>= _) = .ok r ∧ _
    cases htype : itemType item with
    | error e =>
      refine ⟨nofun, ?_⟩
      rintro ⟨r, id, drawn, g, hread, -⟩
      cases hread
    | ok type =>
      rw [ok_bind, ok_bind]
      by_cases hmessage : type = ascii "message"
      · rw [if_pos hmessage, if_pos hmessage]
        exact kindStep_ok_iff s.grouping.message
          fun _ _ => message_ok_iff
      · rw [if_neg hmessage, if_neg hmessage]
        by_cases hreasoning : type = ascii "reasoning"
        · rw [if_pos hreasoning, if_pos hreasoning]
          unfold reasoningStep
          by_cases hpending : s.grouping.pendingReasoning.isSome = true
          · rw [if_pos hpending]
            refine ⟨nofun, ?_⟩
            rintro ⟨r, id, drawn, g, hread, -, hg, -⟩
            obtain ⟨⟨value, members⟩, -, hread⟩ := bind_ok.mp hread
            cases hread
            exact absurd hg (not_placed hpending rfl fun _ => rfl)
          · rw [if_neg hpending]
            refine kindStep_ok_iff
              (fun value =>
                .ok ⟨s.grouping.turns, some value, false⟩) ?_
            intro value g
            rw [placed hpending rfl rfl, append_nil]
            exact ⟨fun h => congrArg some (ok.inj h),
              fun h => congrArg ok (some.inj h)⟩
        · rw [if_neg hreasoning, if_neg hreasoning]
          by_cases hcall : type = ascii "function_call"
          · rw [if_pos hcall, if_pos hcall]
            refine kindStep_ok_iff
              (fun call =>
                .ok (s.grouping.functionCall call)) ?_
            intro call g
            rw [place_call]
            exact ⟨fun h => congrArg some (ok.inj h),
              fun h => congrArg ok (some.inj h)⟩
          · rw [if_neg hcall, if_neg hcall]
            by_cases houtput : type = ascii "function_call_output"
            · rw [if_pos houtput, if_pos houtput]
              unfold functionCallOutputStep
              by_cases hpending : s.grouping.pendingReasoning.isSome = true
              · rw [if_pos hpending]
                refine ⟨nofun, ?_⟩
                rintro ⟨r, id, drawn, g, hread, -, hg, -⟩
                obtain ⟨⟨value, members⟩, -, hread⟩ := bind_ok.mp hread
                cases hread
                exact absurd hg (not_placed hpending rfl fun _ => rfl)
              · rw [if_neg hpending]
                refine kindStep_ok_iff
                  (fun turn =>
                    .ok ⟨s.grouping.turns ++ [turn], none, false⟩) ?_
                intro turn g
                rw [placed hpending rfl rfl]
                exact ⟨fun h => congrArg some (ok.inj h),
                  fun h => congrArg ok (some.inj h)⟩
            · rw [if_neg houtput, if_neg houtput]
              constructor
              · intro h
                split at h <;> cases h
              · rintro ⟨r, id, drawn, g, hread, -⟩
                cases hread
  · rw [Bool.not_eq_true] at hobject
    rw [hobject]
    refine ⟨nofun, ?_⟩
    rintro ⟨r, id, drawn, g, hread, -⟩
    cases hread

end

-- ============ the ids

/-- The kind of the ids of an item. -/
def itemKind (item : Json) : String :=
  match item.stringAt? (ascii "type") with
  | some type =>
    if type = ascii "reasoning" then "rs"
    else if type = ascii "function_call" then "fc"
    else if type = ascii "function_call_output" then "fco"
    else "msg"
  | none => "msg"

/-- The id of an item, its own or a new one, and the draws after it. -/
def takenId (draws : Nat → UInt64) (drawn : Nat) (item : Json) : Bytes × Nat :=
  idOr draws drawn (itemKind item) ((item.stringAt? (ascii "id")).getD [])

/-- The ids of a list of items. -/
def takenIds (draws : Nat → UInt64) : Nat → List Json → List Bytes
  | _, [] => []
  | drawn, item :: rest =>
    (takenId draws drawn item).1
      :: takenIds draws (takenId draws drawn item).2 rest

/-- The item has no id, or one that is not empty. -/
def IdOk (item : Json) : Prop :=
  item.present? (ascii "id") = none
    ∨ ∃ b rest, item.present? (ascii "id") = some (.string (b :: rest))

section

variable {draws : Nat → UInt64} {drawn : Nat} {item : Json}

theorem stringAt_of_present {key s : Bytes}
    (h : item.present? key = some (.string s)) :
    item.stringAt? key = some s := by
  unfold Json.present? at h
  unfold Json.stringAt?
  cases hfind : item.find? key with
  | none =>
    rw [hfind] at h
    cases h
  | some v =>
    rw [hfind] at h
    cases v with
    | null => cases h
    | string t =>
      obtain rfl := Json.string.inj (some.inj h)
      rfl
    | _ => cases h

theorem stringAt_of_absent {key : Bytes} (h : item.present? key = none) :
    item.stringAt? key = none := by
  unfold Json.present? at h
  unfold Json.stringAt?
  cases hfind : item.find? key with
  | none => rfl
  | some v =>
    rw [hfind] at h
    cases v with
    | null => rfl
    | _ => cases h

theorem itemId_ok_iff {kind : String} {id : Bytes} {drawn' : Nat} :
    itemId draws drawn item kind = .ok (id, drawn')
      ↔ IdOk item ∧ idOr draws drawn kind
        ((item.stringAt? (ascii "id")).getD []) = (id, drawn') := by
  unfold itemId IdOk
  cases hpresent : item.present? (ascii "id") with
  | none =>
    rw [stringAt_of_absent hpresent]
    exact ⟨fun h => ⟨.inl rfl, ok.inj h⟩, fun h => congrArg ok h.2⟩
  | some v =>
    cases v with
    | string s =>
      rw [stringAt_of_present hpresent]
      cases s with
      | nil =>
        refine ⟨nofun, ?_⟩
        rintro ⟨h | ⟨b, rest, h⟩, -⟩
        · cases h
        · cases h
      | cons b rest =>
        exact ⟨fun h => ⟨.inr ⟨b, rest, rfl⟩, ok.inj h⟩,
          fun h => congrArg ok h.2⟩
    | _ =>
      refine ⟨nofun, ?_⟩
      rintro ⟨h | ⟨b, rest, h⟩, -⟩
      · cases h
      · cases h

theorem takenId_ne_nil (draws : Nat → UInt64) (drawn : Nat) (item : Json) :
    ∃ b rest, (takenId draws drawn item).1 = b :: rest := by
  have hrandom : ∀ kind, ∃ b rest, randomId draws drawn kind = b :: rest := by
    intro kind
    refine exists_cons_of_ne_nil ?_
    unfold randomId
    rw [append_assoc]
    exact append_ne_nil_of_right_ne_nil _
      (append_ne_nil_of_left_ne_nil (cons_ne_nil _ _) _)
  unfold takenId idOr
  cases (item.stringAt? (ascii "id")).getD [] with
  | nil => exact hrandom (itemKind item)
  | cons b rest => exact ⟨b, rest, rfl⟩

end

section

variable {text : JsonText} {item : Json} {i j : Nat} {r : Reading}

/-- What `parse_message_item` makes of its pieces. -/
def messageResult (role : Bytes) (parsed : ChatRole)
    (parts : List (ContentPart × Json)) : ChatTurn × List (Bytes × Json) :=
  ({ role := parsed, content := parts.map fst },
    [(ascii "type", .string (ascii "message")), (ascii "role", .string role),
      (ascii "content", .array (parts.map Prod.snd))])

theorem messageValue_ok_iff {v : ChatTurn × List (Bytes × Json)} :
    messageValue item i = .ok v ↔ ∃ role parsed parts,
      messageRole item i = .ok (role, parsed) ∧ rejectPhase item = .ok ()
      ∧ requireCompleted item "input message" = .ok ()
      ∧ messageParts parsed item i = .ok parts
      ∧ v = messageResult role parsed parts := by
  constructor
  · intro h
    obtain ⟨⟨role, parsed⟩, hrole, h⟩ := bind_ok.mp h
    obtain ⟨_, hphase, h⟩ := bind_ok.mp h
    obtain ⟨_, hstatus, h⟩ := bind_ok.mp h
    obtain ⟨parts, hparts, h⟩ := bind_ok.mp h
    exact ⟨role, parsed, parts, hrole, hphase, hstatus, hparts, (ok.inj h).symm⟩
  · rintro ⟨role, parsed, parts, hrole, hphase, hstatus, hparts, rfl⟩
    unfold messageValue
    rw [hrole, ok_bind]
    dsimp only
    rw [hphase, ok_bind, hstatus, ok_bind, hparts, ok_bind]
    rfl

theorem messageRole_ok_iff {role : Bytes} {parsed : ChatRole} :
    messageRole item i = .ok (role, parsed)
      ↔ item.stringAt? (ascii "role") = some role
        ∧ parseRole role = .ok parsed := by
  unfold messageRole
  cases item.stringAt? (ascii "role") with
  | none => exact ⟨nofun, nofun⟩
  | some role' =>
    dsimp only
    constructor
    · intro h
      obtain ⟨parsed', hparsed, h⟩ := bind_ok.mp h
      cases h
      exact ⟨rfl, hparsed⟩
    · rintro ⟨hsame, hparsed⟩
      cases hsame
      rw [hparsed]
      rfl

/-- The parts of a content that has some. -/
theorem messageParts_ok_iff {role : ChatRole}
    {parts : List (ContentPart × Json)} :
    messageParts role item i = .ok parts
      ↔ (∃ text, item.present? (ascii "content") = some (.string text)
        ∧ parts = [textPart text (if role = .assistant then
            ascii "output_text" else ascii "input_text")])
        ∨ ∃ first rest,
        item.present? (ascii "content") = some (.array (first :: rest))
        ∧ (first :: rest).mapM (parsePart role) = .ok parts := by
  unfold messageParts
  cases item.present? (ascii "content") with
  | none => simp [badInput, badRequest]
  | some content =>
    cases content with
    | string text =>
      simp only [ok.injEq, some.injEq, Json.string.injEq,
        reduceCtorEq, false_and, exists_false, or_false,
        exists_eq_left']
      exact eq_comm
    | array items =>
      cases items with
      | nil => simp [badInput, badRequest]
      | cons first rest => simp
    | _ => simp [badInput, badRequest]

/-- The position of an item is only in the errors. -/
theorem messageValue_index {v : ChatTurn × List (Bytes × Json)}
    (h : messageValue item i = .ok v) : messageValue item j = .ok v := by
  obtain ⟨role, parsed, parts, hrole, hphase, hstatus, hparts, hv⟩ :=
    messageValue_ok_iff.mp h
  exact messageValue_ok_iff.mpr ⟨role, parsed, parts,
    messageRole_ok_iff.mpr (messageRole_ok_iff.mp hrole), hphase, hstatus,
    messageParts_ok_iff.mpr (messageParts_ok_iff.mp hparts), hv⟩

/-- The types of the items that are read. -/
theorem readValue_cases (h : readValue text item i = .ok r) :
    item.isObject = true ∧
    ((∃ turn members, itemType item = .ok (ascii "message")
        ∧ messageValue item i = .ok (turn, members)
        ∧ r = ⟨.message turn, "msg", members⟩)
    ∨ (∃ reasoning members, itemType item = .ok (ascii "reasoning")
        ∧ reasoningValue item = .ok (reasoning, members)
        ∧ r = ⟨.reasoning reasoning, "rs", members⟩)
    ∨ (∃ call members, itemType item = .ok (ascii "function_call")
        ∧ functionCallValue text item = .ok (call, members)
        ∧ r = ⟨.call call, "fc", members⟩)
    ∨ ∃ turn members, itemType item = .ok (ascii "function_call_output")
        ∧ functionCallOutputValue item = .ok (turn, members)
        ∧ r = ⟨.output turn, "fco", members⟩) := by
  unfold readValue at h
  by_cases hobject : item.isObject = true
  · refine ⟨hobject, ?_⟩
    rw [hobject] at h
    obtain ⟨type, htype, h⟩ := bind_ok.mp h
    by_cases hmessage : type = ascii "message"
    · rw [if_pos hmessage] at h
      obtain ⟨⟨turn, members⟩, hvalue, h⟩ := bind_ok.mp h
      exact .inl ⟨turn, members, hmessage ▸ htype, hvalue, (ok.inj h).symm⟩
    · rw [if_neg hmessage] at h
      by_cases hreasoning : type = ascii "reasoning"
      · rw [if_pos hreasoning] at h
        obtain ⟨⟨value, members⟩, hvalue, h⟩ := bind_ok.mp h
        exact .inr (.inl ⟨value, members, hreasoning ▸ htype, hvalue,
          (ok.inj h).symm⟩)
      · rw [if_neg hreasoning] at h
        by_cases hcall : type = ascii "function_call"
        · rw [if_pos hcall] at h
          obtain ⟨⟨call, members⟩, hvalue, h⟩ := bind_ok.mp h
          exact .inr (.inr (.inl ⟨call, members, hcall ▸ htype,
            hvalue, (ok.inj h).symm⟩))
        · rw [if_neg hcall] at h
          by_cases houtput : type = ascii "function_call_output"
          · rw [if_pos houtput] at h
            obtain ⟨⟨turn, members⟩, hvalue, h⟩ := bind_ok.mp h
            exact .inr (.inr (.inr ⟨turn, members, houtput ▸ htype,
              hvalue, (ok.inj h).symm⟩))
          · rw [if_neg houtput] at h
            cases h
  · rw [Bool.not_eq_true] at hobject
    rw [hobject] at h
    cases h

variable {members : List (Bytes × Json)}

/-- An item of a known type is read by the reader of the type. -/
theorem readValue_message (hobject : item.isObject = true)
    (htype : itemType item = .ok (ascii "message"))
    (hvalue : messageValue item i = .ok (turn, members)) :
    readValue text item i = .ok ⟨.message turn, "msg", members⟩ := by
  unfold readValue
  rw [hobject, htype]
  show (messageValue item i >>= _) = _
  rw [hvalue]
  rfl

theorem readValue_reasoning {reasoning : Bytes} (hobject : item.isObject = true)
    (htype : itemType item = .ok (ascii "reasoning"))
    (hvalue : reasoningValue item = .ok (reasoning, members)) :
    readValue text item i = .ok ⟨.reasoning reasoning, "rs", members⟩ := by
  unfold readValue
  rw [hobject, htype]
  show (reasoningValue item >>= _) = _
  rw [hvalue]
  rfl

theorem readValue_call {call : ToolCall} (hobject : item.isObject = true)
    (htype : itemType item = .ok (ascii "function_call"))
    (hvalue : functionCallValue text item = .ok (call, members)) :
    readValue text item i = .ok ⟨.call call, "fc", members⟩ := by
  unfold readValue
  rw [hobject, htype]
  show (functionCallValue text item >>= _) = _
  rw [hvalue]
  rfl

theorem readValue_output (hobject : item.isObject = true)
    (htype : itemType item = .ok (ascii "function_call_output"))
    (hvalue : functionCallOutputValue item = .ok (turn, members)) :
    readValue text item i = .ok ⟨.output turn, "fco", members⟩ := by
  unfold readValue
  rw [hobject, htype]
  show (functionCallOutputValue item >>= _) = _
  rw [hvalue]
  rfl

theorem readValue_index (h : readValue text item i = .ok r) :
    readValue text item j = .ok r := by
  obtain ⟨hobject, hcase⟩ := readValue_cases h
  rcases hcase with ⟨turn, members, htype, hvalue, rfl⟩
    | ⟨reasoning, members, htype, hvalue, rfl⟩
    | ⟨call, members, htype, hvalue, rfl⟩
    | ⟨turn, members, htype, hvalue, rfl⟩
  · exact readValue_message hobject htype (messageValue_index hvalue)
  · exact readValue_reasoning hobject htype hvalue
  · exact readValue_call hobject htype hvalue
  · exact readValue_output hobject htype hvalue

/-- The type that was read is the one written, but for a message, which
may leave it out. -/
theorem stringAt_type {type : Bytes} (h : itemType item = .ok type) :
    item.stringAt? (ascii "type") = some type
      ∨ item.stringAt? (ascii "type") = none ∧ type = ascii "message" := by
  unfold itemType at h
  cases hpresent : item.present? (ascii "type") with
  | none =>
    rw [hpresent] at h
    refine .inr ⟨stringAt_of_absent hpresent, ?_⟩
    dsimp only at h
    split at h
    · exact (ok.inj h).symm
    · cases h
  | some v =>
    rw [hpresent] at h
    cases v with
    | string s =>
      cases h
      exact .inl (stringAt_of_present hpresent)
    | _ => cases h

/-- An item that is written as a function call. -/
def isFunctionCall (item : Json) : Bool :=
  item.stringAt? (ascii "type") == some (ascii "function_call")

theorem readValue_kind (h : readValue text item i = .ok r) :
    r.kind = itemKind item ∧ r.meaning.isCall = isFunctionCall item := by
  obtain ⟨-, hcase⟩ := readValue_cases h
  unfold itemKind isFunctionCall
  rcases hcase with ⟨turn, members, htype, -, rfl⟩
    | ⟨reasoning, members, htype, -, rfl⟩
    | ⟨call, members, htype, -, rfl⟩ | ⟨turn, members, htype, -, rfl⟩
  · rcases stringAt_type htype with hat | ⟨hat, -⟩
    · rw [hat]
      exact ⟨rfl, rfl⟩
    · rw [hat]
      exact ⟨rfl, rfl⟩
  · rcases stringAt_type htype with hat | ⟨-, habsurd⟩
    · rw [hat]
      exact ⟨rfl, rfl⟩
    · exact absurd habsurd (by decide)
  · rcases stringAt_type htype with hat | ⟨-, habsurd⟩
    · rw [hat]
      exact ⟨rfl, rfl⟩
    · exact absurd habsurd (by decide)
  · rcases stringAt_type htype with hat | ⟨-, habsurd⟩
    · rw [hat]
      exact ⟨rfl, rfl⟩
    · exact absurd habsurd (by decide)

end

-- ============ the loop

/-- The item is read, and its id is no error. -/
def Accepts (text : JsonText) (item : Json) (r : Reading) : Prop :=
  readValue text item 0 = .ok r ∧ IdOk item

/-- The canonical forms of some readings. -/
def canonicals (ids : List Bytes) (rs : List Reading) : List Json :=
  List.zipWith (fun id r => canonicalItem id r.members) ids rs

section

variable {text : JsonText} {draws : Nat → UInt64} {item : Json}

/-- An iteration, with the id written out. -/
theorem inputStep_ok_iff_accepts {s s' : InputState} {index : Nat} :
    inputStep text draws s item index = .ok s'
    ↔ ∃ r g, Accepts text item r ∧ place s.grouping r.meaning = some g
      ∧ (takenId draws s.drawn item).1 ∉ s.ids
      ∧ s' = s.after g (takenId draws s.drawn item).1 r.members
        (takenId draws s.drawn item).2 := by
  rw [inputStep_ok_iff]
  constructor
  · rintro ⟨r, id, drawn, g, hread, hid, hg, hnew, rfl⟩
    obtain ⟨hok, htaken⟩ := itemId_ok_iff.mp hid
    rw [(readValue_kind hread).1] at htaken
    have hsame : takenId draws s.drawn item = (id, drawn) := htaken
    rw [hsame]
    exact ⟨r, g, ⟨readValue_index hread, hok⟩, hg, hnew, rfl⟩
  · rintro ⟨r, g, ⟨hread, hok⟩, hg, hnew, rfl⟩
    refine ⟨r, _, _, g, readValue_index hread,
      itemId_ok_iff.mpr ⟨hok, ?_⟩, hg, hnew, rfl⟩
    rw [(readValue_kind hread).1]
    rfl

/-- The draws after a list of items. -/
def drawnAfter (draws : Nat → UInt64) : Nat → List Json → Nat
  | drawn, [] => drawn
  | drawn, item :: rest =>
    drawnAfter draws (takenId draws drawn item).2 rest

/-- The loop reads every item, places them in order, and finds no id
twice. -/
theorem inputLoop_ok_iff {s s' : InputState} {i : Nat}
    {values : List Json} (hids : s.ids.Nodup) :
    inputLoop text draws s i values = .ok s'
    ↔ ∃ rs g, List.Forall₂ (Accepts text) values rs
      ∧ placeAll s.grouping (rs.map Reading.meaning) = some g
      ∧ (s.ids ++ takenIds draws s.drawn values).Nodup
      ∧ s' = ⟨g, s.items ++ canonicals (takenIds draws s.drawn values) rs,
        s.ids ++ takenIds draws s.drawn values,
        drawnAfter draws s.drawn values⟩ := by
  induction values generalizing s i with
  | nil =>
    constructor
    · intro h
      obtain rfl := ok.inj h
      refine ⟨[], s.grouping, .nil, rfl, ?_, ?_⟩
      · rw [takenIds, append_nil]
        exact hids
      · simp [takenIds, canonicals, drawnAfter]
    · rintro ⟨rs, g, hrs, hg, -, rfl⟩
      cases hrs
      cases hg
      simp [inputLoop, takenIds, canonicals, drawnAfter]
  | cons item rest ih =>
    constructor
    · intro h
      obtain ⟨s₁, hstep, hrest⟩ := bind_ok.mp h
      obtain ⟨r, g₁, haccepts, hplace, hnew, rfl⟩ :=
        inputStep_ok_iff_accepts.mp hstep
      have hids₁ : (s.ids ++ [(takenId draws s.drawn item).1]).Nodup :=
        nodup_append.mpr ⟨hids, pairwise_singleton _ _, fun a ha b hb => by
            obtain rfl := mem_singleton.mp hb
            exact fun heq => hnew (heq ▸ ha)⟩
      obtain ⟨rs, g, hrs, hg, hnodup, rfl⟩ := (ih hids₁).mp hrest
      refine ⟨r :: rs, g, .cons haccepts hrs, ?_, ?_, ?_⟩
      · show (place _ _).bind _ = _
        rw [hplace]
        exact hg
      · simpa [InputState.after, takenIds] using hnodup
      · simp [InputState.after, takenIds, canonicals, drawnAfter]
    · rintro ⟨rs, g, hrs, hg, hnodup, rfl⟩
      cases hrs with
      | @cons _ r _ rs haccepts hrs =>
        obtain ⟨g₁, hplace, hg⟩ := bind_eq_some_iff.mp hg
        have hnodup' : ((s.ids ++ [(takenId draws s.drawn item).1])
            ++ takenIds draws (takenId draws s.drawn item).2
              rest).Nodup := by
          simpa [takenIds] using hnodup
        have hids₁ := (nodup_append.mp hnodup').1
        have hnew : (takenId draws s.drawn item).1 ∉ s.ids :=
          fun hmem => (nodup_append.mp hids₁).2.2 _ hmem _
            (mem_singleton_self _) rfl
        show (inputStep text draws s item i >>= _) = _
        rw [inputStep_ok_iff_accepts.mpr
          ⟨r, g₁, haccepts, hplace, hnew, rfl⟩, ok_bind]
        refine (ih hids₁).mpr ⟨rs, g, hrs, hg, hnodup', ?_⟩
        simp [InputState.after, takenIds, canonicals, drawnAfter]

/-- An input is accepted when every item is read, the items can be placed,
no reasoning is left waiting, and no id comes twice. -/
theorem parseInput_ok_iff {input : Json} {parsed : ParsedInput} :
    parseInput text draws input = .ok parsed
    ↔ ∃ values rs g, inputValues input = .ok values
      ∧ List.Forall₂ (Accepts text) values rs
      ∧ placeAll {} (rs.map Reading.meaning) = some g
      ∧ g.pendingReasoning = none
      ∧ (takenIds draws 0 values).Nodup
      ∧ parsed = ⟨g.turns, canonicals (takenIds draws 0 values) rs⟩ := by
  constructor
  · intro h
    obtain ⟨values, hvalues, h⟩ := bind_ok.mp h
    obtain ⟨s, hloop, h⟩ := bind_ok.mp h
    obtain ⟨rs, g, hrs, hg, hnodup, rfl⟩ :=
      (inputLoop_ok_iff nodup_nil).mp hloop
    by_cases hpending : g.pendingReasoning.isSome = true
    · rw [if_pos hpending] at h
      cases h
    · rw [if_neg hpending] at h
      cases h
      exact ⟨values, rs, g, hvalues, hrs, hg, by simpa using hpending,
        hnodup, rfl⟩
  · rintro ⟨values, rs, g, hvalues, hrs, hg, hpending, hnodup, rfl⟩
    have hloop := (inputLoop_ok_iff (s := {}) (i := 0) nodup_nil).mpr
      ⟨rs, g, hrs, hg, hnodup, rfl⟩
    unfold parseInput
    rw [hvalues, ok_bind, hloop, ok_bind]
    show (if g.pendingReasoning.isSome = true then _ else _) = _
    rw [hpending]
    rfl

end

-- ============ the canonical forms

section

variable {text : JsonText} {role : ChatRole} {part : Json}
  {v : ContentPart × Json}

theorem parsePart_textPart (role : ChatRole) (text type : Bytes)
    (htype : type = ascii "input_text" ∨ type = ascii "output_text")
    (hrole : type = ascii "output_text" → role = .assistant) :
    parsePart role (textPart text type).2
      = .ok (textPart text type) := by
  rcases htype with rfl | rfl
  · show parseTextPart role (textPart text (ascii "input_text")).2
      (ascii "input_text") = _
    unfold parseTextPart
    rw [show (textPart text (ascii "input_text")).2.stringAt?
      (ascii "text") = some text from rfl]
    exact if_neg fun h => absurd h.1 (by decide)
  · show parseTextPart role (textPart text (ascii "output_text")).2
      (ascii "output_text") = _
    unfold parseTextPart
    rw [show (textPart text (ascii "output_text")).2.stringAt?
      (ascii "text") = some text from rfl]
    exact if_neg fun h => h.2 (hrole rfl)

variable {url : Bytes} {refusal : String}

theorem sourceOf_value {source : Source}
    (h : sourceOf url refusal = .ok source) : source.value = url := by
  unfold sourceOf at h
  split at h
  · cases h
    rfl
  · split at h
    · cases h
      rfl
    · cases h

theorem urlOf_ok {key : String} (h : urlOf part key refusal = .ok url) :
    part.stringAt? (ascii key) = some url ∧ url ≠ [] := by
  unfold urlOf at h
  cases hat : part.stringAt? (ascii key) with
  | none =>
    rw [hat] at h
    cases h
  | some s =>
    rw [hat] at h
    cases s with
    | nil => cases h
    | cons b rest =>
      cases h
      exact ⟨rfl, cons_ne_nil _ _⟩

theorem urlOf_eq {key : String} (hurl : url ≠ [])
    (h : part.stringAt? (ascii key) = some url) :
    urlOf part key refusal = .ok url := by
  unfold urlOf
  rw [h]
  cases url with
  | nil => exact absurd rfl hurl
  | cons b rest => rfl

/-- A part of a message reads again from its canonical form. -/
theorem parsePart_canonical (h : parsePart role part = .ok v) :
    parsePart role v.2 = .ok v := by
  unfold parsePart at h
  cases htype : part.stringAt? (ascii "type") with
  | none =>
    rw [htype] at h
    cases h
  | some type =>
    rw [htype] at h
    dsimp only at h
    split at h
    · rename_i htext
      unfold parseTextPart at h
      split at h
      · cases h
      · rename_i text _
        split at h
        · cases h
        · rename_i hrole
          cases h
          refine parsePart_textPart role text type htext fun hout => ?_
          by_contra hno
          exact hrole ⟨hout, hno⟩
    · split at h
      · unfold parseImagePart at h
        split at h
        · cases h
        · rename_i hrole
          obtain ⟨source, hsource, h⟩ := bind_ok.mp h
          cases h
          unfold parseImageSource at hsource
          split at hsource
          · cases hsource
          · obtain ⟨url, hurl, hsource⟩ := bind_ok.mp hsource
            obtain ⟨_, -, hsource⟩ := bind_ok.mp hsource
            obtain rfl := sourceOf_value hsource
            show parseImagePart role _ = _
            unfold parseImagePart parseImageSource
            rw [if_neg hrole]
            show (urlOf _ _ _ >>= _) >>= _ = _
            rw [urlOf_eq (urlOf_ok hurl).2 rfl, ok_bind]
            show (sourceOf source.value _ >>= _) = _
            rw [hsource]
            rfl
      · split at h
        · unfold parseVideoPart at h
          split at h
          · cases h
          · rename_i hrole
            obtain ⟨source, hsource, h⟩ := bind_ok.mp h
            cases h
            obtain ⟨url, hurl, hsource⟩ := bind_ok.mp hsource
            obtain rfl := sourceOf_value hsource
            show parseVideoPart role _ = _
            unfold parseVideoPart parseVideoSource
            rw [if_neg hrole, urlOf_eq (urlOf_ok hurl).2 rfl, ok_bind, hsource]
            rfl
        · split at h
          · cases h
          · split at h
            · cases h
            · cases h

/-- The parts of a message read again from their canonical forms. -/
theorem mapM_parsePart_canonical {parts : List Json}
    {vs : List (ContentPart × Json)}
    (h : parts.mapM (parsePart role) = .ok vs) :
    (vs.map snd).mapM (parsePart role) = .ok vs := by
  induction parts generalizing vs with
  | nil =>
    cases h
    rfl
  | cons part rest ih =>
    rw [mapM_cons] at h
    obtain ⟨v, hv, h⟩ := bind_ok.mp h
    obtain ⟨more, hmore, h⟩ := bind_ok.mp h
    cases h
    rw [map_cons, mapM_cons, parsePart_canonical hv, ok_bind, ih hmore]
    rfl

theorem mapM_length {α β : Type} {f : α → Except ApiError β} {xs : List α}
    {ys : List β} (h : xs.mapM f = .ok ys) : ys.length = xs.length := by
  induction xs generalizing ys with
  | nil =>
    cases h
    rfl
  | cons x rest ih =>
    rw [mapM_cons] at h
    obtain ⟨y, -, h⟩ := bind_ok.mp h
    obtain ⟨more, hmore, h⟩ := bind_ok.mp h
    cases h
    simp [ih hmore]

/-- There is a part, and the parts read again. -/
theorem messageParts_canonical {i : Nat} {parts : List (ContentPart × Json)}
    (h : messageParts role item i = .ok parts) :
    ∃ first rest, parts.map snd = first :: rest
      ∧ (first :: rest).mapM (parsePart role) = .ok parts := by
  rcases messageParts_ok_iff.mp h with ⟨text, -, rfl⟩ | ⟨first, rest, -, h⟩
  · refine ⟨_, [], rfl, ?_⟩
    rw [mapM_cons, parsePart_textPart]
    · rfl
    · by_cases hrole : role = .assistant
      · rw [if_pos hrole]
        exact .inr rfl
      · rw [if_neg hrole]
        exact .inl rfl
    · intro hout
      by_contra hrole
      rw [if_neg hrole] at hout
      exact absurd hout (by decide)
  · have hagain := mapM_parsePart_canonical h
    have hlength := mapM_length h
    cases hparts : parts.map snd with
    | nil =>
      rw [map_eq_nil_iff] at hparts
      rw [hparts] at hlength
      cases hlength
    | cons first' rest' => exact ⟨first', rest', rfl, hparts ▸ hagain⟩

variable {members : List (Bytes × Json)}

theorem messageValue_canonical {i j : Nat} (id : Bytes)
    (h : messageValue item i = .ok (turn, members)) :
    messageValue (canonicalItem id members) j = .ok (turn, members) := by
  obtain ⟨role, parsed, parts, hrole, -, -, hparts, hv⟩ :=
    messageValue_ok_iff.mp h
  obtain ⟨first, rest, hjson, hagain⟩ := messageParts_canonical hparts
  obtain ⟨rfl, rfl⟩ := mk.inj hv
  refine messageValue_ok_iff.mpr ⟨role, parsed, parts,
    messageRole_ok_iff.mpr ⟨rfl, (messageRole_ok_iff.mp hrole).2⟩, rfl, rfl,
    messageParts_ok_iff.mpr (.inr ⟨first, rest, ?_, hagain⟩), rfl⟩
  rw [← hjson]
  rfl

theorem mapM_reasoningPart (texts : List Bytes) :
    (texts.map reasoningJson).mapM reasoningPart = .ok texts := by
  induction texts with
  | nil => rfl
  | cons t rest ih =>
    rw [map_cons, mapM_cons,
      show reasoningPart (reasoningJson t) = .ok t from rfl, ok_bind, ih]
    rfl

theorem reasoningValue_canonical {reasoning : Bytes} (id : Bytes)
    (h : reasoningValue item = .ok (reasoning, members)) :
    reasoningValue (canonicalItem id members)
      = .ok (reasoning, members) := by
  obtain ⟨_, -, h⟩ := bind_ok.mp h
  obtain ⟨texts, -, h⟩ := bind_ok.mp h
  cases h
  show ((texts.map reasoningJson).mapM reasoningPart >>= _) = _
  rw [mapM_reasoningPart]
  rfl

theorem parseCallId_ok {what : String} {callId : Bytes}
    (h : parseCallId item what = .ok callId) :
    ∃ b rest, callId = b :: rest := by
  unfold parseCallId at h
  split at h
  · cases h
  · cases h
  · rename_i id hne _
    obtain rfl := ok.inj h
    cases id with
    | nil => exact absurd rfl hne
    | cons b rest => exact ⟨b, rest, rfl⟩

/-- The members of a function call. -/
def callMembers (call : ToolCall) : List (Bytes × Json) :=
  [(ascii "type", .string (ascii "function_call")),
    (ascii "status", .string (ascii "completed")),
    (ascii "call_id", .string call.id), (ascii "name", .string call.name),
    (ascii "arguments", .string call.argumentsJson)]

/-- A call as it is written is read, unless its name is refused. -/
theorem functionCallValue_written (id : Bytes) (call : ToolCall)
    (hid : call.id ≠ [])
    (harguments : ∃ members,
      text.parse call.argumentsJson = some (.object members)) :
    functionCallValue text (canonicalItem id (callMembers call))
      = if isValidFunctionName 64 call.name then
        .ok (call, callMembers call)
        else badInput
        (ascii "function name must match [A-Za-z0-9_-]\x7b1,64\x7d") := by
  obtain ⟨callId, name, arguments⟩ := call
  obtain ⟨members, hparse⟩ := harguments
  obtain ⟨b, rest, rfl⟩ := exists_cons_of_ne_nil hid
  show (requireName _ >>= _) = _
  unfold requireName requireFunctionName
  rw [show (canonicalItem id (callMembers ⟨b :: rest, name,
    arguments⟩)).stringAt? (ascii "name") = some name from rfl]
  by_cases hname : isValidFunctionName 64 name = true
  · rw [if_pos hname]
    show (if isValidFunctionName 64 name = true then _ else _) >>= _ = _
    rw [if_pos hname, ok_bind]
    show (parseArguments text _ >>= _) = _
    unfold parseArguments
    rw [show (canonicalItem id (callMembers ⟨b :: rest, name,
      arguments⟩)).stringAt? (ascii "arguments") = some arguments from rfl]
    dsimp only
    rw [show text.parse arguments = some (.object members) from hparse]
    rfl
  · rw [if_neg hname]
    show (if isValidFunctionName 64 name = true then _ else _) >>= _ = _
    rw [if_neg hname]
    rfl

theorem requireName_ok {name : Bytes} (h : requireName item = .ok name) :
    isValidFunctionName 64 name = true := by
  unfold requireName requireFunctionName at h
  split at h
  · cases h
  · split at h
    · rename_i hvalid
      cases h
      exact hvalid
    · cases h

theorem parseArguments_ok {arguments : Bytes}
    (h : parseArguments text item = .ok arguments) :
    ∃ members, text.parse arguments = some (.object members) := by
  unfold parseArguments at h
  split at h
  · cases h
  · split at h
    · rename_i members hparse
      cases h
      exact ⟨members, hparse⟩
    · cases h

theorem functionCallValue_canonical {call : ToolCall} (id : Bytes)
    (h : functionCallValue text item = .ok (call, members)) :
    functionCallValue text (canonicalItem id members)
      = .ok (call, members) := by
  obtain ⟨callId, hid, h⟩ := bind_ok.mp h
  obtain ⟨name, hname, h⟩ := bind_ok.mp h
  obtain ⟨arguments, harguments, h⟩ := bind_ok.mp h
  obtain ⟨_, -, h⟩ := bind_ok.mp h
  cases h
  obtain ⟨b, rest, rfl⟩ := parseCallId_ok hid
  have hwritten := functionCallValue_written id
    ⟨b :: rest, name, arguments⟩ (cons_ne_nil b rest)
    (parseArguments_ok harguments)
  rw [if_pos (requireName_ok hname)] at hwritten
  exact hwritten

theorem functionCallOutputValue_canonical (id : Bytes)
    (h : functionCallOutputValue item = .ok (turn, members)) :
    functionCallOutputValue (canonicalItem id members)
      = .ok (turn, members) := by
  obtain ⟨callId, hid, h⟩ := bind_ok.mp h
  obtain ⟨output, -, h⟩ := bind_ok.mp h
  obtain ⟨_, -, h⟩ := bind_ok.mp h
  cases h
  obtain ⟨b, rest, rfl⟩ := parseCallId_ok hid
  rfl

/-- The canonical form of an item is accepted, and reads as the item
did. -/
theorem canonical_reads {i : Nat} {r : Reading} {id : Bytes}
    (hid : id ≠ []) (h : readValue text item i = .ok r) :
    Accepts text (canonicalItem id r.members) r := by
  obtain ⟨b, rest, rfl⟩ := exists_cons_of_ne_nil hid
  obtain ⟨-, hcase⟩ := readValue_cases h
  rcases hcase with ⟨turn, members, -, hvalue, rfl⟩
    | ⟨reasoning, members, -, hvalue, rfl⟩
    | ⟨call, members, -, hvalue, rfl⟩ | ⟨turn, members, -, hvalue, rfl⟩
  · have hagain := messageValue_canonical (j := 0) (b :: rest) hvalue
    obtain ⟨role, parsed, parts, -, -, -, -, hv⟩ :=
      messageValue_ok_iff.mp hvalue
    obtain ⟨rfl, rfl⟩ := mk.inj hv
    exact ⟨readValue_message rfl rfl hagain, .inr ⟨b, rest, rfl⟩⟩
  · have hagain := reasoningValue_canonical (b :: rest) hvalue
    obtain ⟨_, -, hvalue⟩ := bind_ok.mp hvalue
    obtain ⟨texts, -, hvalue⟩ := bind_ok.mp hvalue
    cases hvalue
    exact ⟨readValue_reasoning rfl rfl hagain, .inr ⟨b, rest, rfl⟩⟩
  · have hagain := functionCallValue_canonical (b :: rest) hvalue
    obtain ⟨callId, -, hvalue⟩ := bind_ok.mp hvalue
    obtain ⟨name, -, hvalue⟩ := bind_ok.mp hvalue
    obtain ⟨arguments, -, hvalue⟩ := bind_ok.mp hvalue
    obtain ⟨_, -, hvalue⟩ := bind_ok.mp hvalue
    cases hvalue
    exact ⟨readValue_call rfl rfl hagain, .inr ⟨b, rest, rfl⟩⟩
  · have hagain := functionCallOutputValue_canonical (b :: rest) hvalue
    obtain ⟨callId, -, hvalue⟩ := bind_ok.mp hvalue
    obtain ⟨output, -, hvalue⟩ := bind_ok.mp hvalue
    obtain ⟨_, -, hvalue⟩ := bind_ok.mp hvalue
    cases hvalue
    exact ⟨readValue_output rfl rfl hagain, .inr ⟨b, rest, rfl⟩⟩

/-- The canonical items of an input read as its items did. -/
theorem canonicals_accepted {draws : Nat → UInt64} {drawn : Nat}
    {values : List Json} {rs : List Reading}
    (h : List.Forall₂ (Accepts text) values rs) :
    List.Forall₂ (Accepts text)
      (canonicals (takenIds draws drawn values) rs) rs := by
  induction h generalizing drawn with
  | nil => exact .nil
  | @cons item r values rs haccepts _ ih =>
    obtain ⟨b, rest, hid⟩ := takenId_ne_nil draws drawn item
    refine .cons (canonical_reads ?_ haccepts.1) ih
    rw [hid]
    exact cons_ne_nil b rest

end

-- ============ the turns read

/-- A turn has a content or calls, and not both. -/
def OneSided (turn : ChatTurn) : Prop :=
  turn.content = [] ↔ turn.toolCalls ≠ []

/-- What an item says of its turn. -/
def Meaning.OneSided : Meaning → Prop
  | .message turn => Responses.OneSided turn
  | .reasoning _ => True
  | .call _ => True
  | .output turn => Responses.OneSided turn

theorem readValue_oneSided {text : JsonText} {i : Nat}
    {r : Reading} (h : readValue text item i = .ok r) :
    r.meaning.OneSided := by
  obtain ⟨-, hcase⟩ := readValue_cases h
  rcases hcase with ⟨turn, members, -, hvalue, rfl⟩
    | ⟨reasoning, members, -, -, rfl⟩
    | ⟨call, members, -, -, rfl⟩ | ⟨turn, members, -, hvalue, rfl⟩
  · obtain ⟨role, parsed, parts, -, -, -, hparts, hv⟩ :=
      messageValue_ok_iff.mp hvalue
    obtain ⟨first, rest, hjson, -⟩ := messageParts_canonical hparts
    obtain ⟨rfl, -⟩ := mk.inj hv
    refine ⟨fun hnil => ?_, fun hno => absurd rfl hno⟩
    rw [map_eq_nil_iff.mp hnil] at hjson
    cases hjson
  · trivial
  · trivial
  · obtain ⟨callId, -, hvalue⟩ := bind_ok.mp hvalue
    obtain ⟨output, -, hvalue⟩ := bind_ok.mp hvalue
    obtain ⟨_, -, hvalue⟩ := bind_ok.mp hvalue
    obtain ⟨rfl, -⟩ := mk.inj (ok.inj hvalue)
    exact ⟨fun hnil => absurd hnil (cons_ne_nil _ _),
      fun hno => absurd rfl hno⟩

theorem opens_oneSided {pending pending' : Option Bytes}
    {more : List ChatTurn} (hm : m.OneSided)
    (h : opens pending m = some (more, pending')) :
    ∀ turn ∈ more, OneSided turn := by
  unfold opens at h
  cases m with
  | message turn =>
    dsimp only at h
    split at h
    · obtain ⟨rfl, -⟩ := mk.inj (some.inj h)
      intro t ht
      obtain rfl := mem_singleton.mp ht
      exact hm
    · split at h
      · obtain ⟨rfl, -⟩ := mk.inj (some.inj h)
        intro t ht
        obtain rfl := mem_singleton.mp ht
        exact hm
      · cases h
  | reasoning text =>
    dsimp only at h
    split at h
    · cases h
    · obtain ⟨rfl, -⟩ := mk.inj (some.inj h)
      exact forall_mem_nil _
  | call call =>
    obtain ⟨rfl, -⟩ := mk.inj (some.inj h)
    intro t ht
    obtain rfl := mem_singleton.mp ht
    exact ⟨fun _ => cons_ne_nil _ _, fun _ => rfl⟩
  | output turn =>
    dsimp only at h
    split at h
    · cases h
    · obtain ⟨rfl, -⟩ := mk.inj (some.inj h)
      intro t ht
      obtain rfl := mem_singleton.mp ht
      exact hm

theorem placeAll_oneSided (hsound : g.Sound) (hms : ∀ m ∈ ms, m.OneSided)
    (hg : ∀ turn ∈ g.turns, OneSided turn)
    (h : placeAll g ms = some g') : ∀ turn ∈ g'.turns, OneSided turn := by
  induction ms generalizing g with
  | nil =>
    cases h
    exact hg
  | cons m rest ih =>
    obtain ⟨g₁, hplace, hrest⟩ := bind_eq_some_iff.mp h
    refine ih (place_sound hsound hplace)
      (fun m' hm' => hms m' (.tail _ hm')) ?_ hrest
    obtain ⟨call, rfl, hjoins, rfl⟩ | ⟨-, more, pending, hopens, rfl⟩ :=
      place_cases hplace
    · obtain ⟨init, turn, hturns, -, hcontent, hcalls, hjoined⟩ :=
        hsound.join_turns hjoins call
      rw [hjoined]
      intro t ht
      rcases mem_append.mp ht with hin | hlast
      · exact hg t (hturns ▸ mem_append_left _ hin)
      · obtain rfl := mem_singleton.mp hlast
        exact ⟨fun _ => append_ne_nil_of_left_ne_nil hcalls _,
          fun _ => hcontent⟩
    · intro t ht
      rcases mem_append.mp ht with hin | hmore
      · exact hg t hin
      · exact opens_oneSided (hms m (.head _)) hopens t hmore

end Ginfer.Serve.Responses
