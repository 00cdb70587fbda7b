/-
Which rounds matter.

Fed one token per round the session never runs out of room: a token's text
is all on one channel. A round of many tokens has the same two deltas, and
throws at the third change of channel. `feedRounds_partition_iff` says
that this is the only difference: a division into rounds gives what the
tokens give one per round — the count of accepted tokens, the reason, the
text of each channel, the count of reasoning tokens, or the exception —
exactly when every round fits.

What fits is walked through in the one-token rounds (`walkRound`): of the
tokens of a round, until the generation ends, those that append text do so
where there is room.
-/
import Ginfer.Frontend.Proofs.Rounds
import Ginfer.Muse.Proofs.Silent

namespace Ginfer.Muse

open Ginfer.Lib Ginfer.Frontend SessionResult OutputDecision List
open Ginfer.Frontend.OutputSession (LimitReason)

-- ============ the walk

/-- Where the tokens of a round lead: to text the round has no room for,
to the end of the generation, or on. -/
inductive Walk where
  | full
  | ends
  | goesOn (budget : Nat) (state : DecoderState)

/-- The tokens of a round, in rounds of their own from the state on, with
the channels the round has text on. -/
def walkRound (s : SessionOptions) (reason : FinishReason) :
    Nat → DecoderState → List OutputChannel → List TokenId → Walk
  | budget, state, _, [] => .goesOn budget state
  | budget, state, runs, token :: rest =>
    if touches s reason budget state token
        && !hasRoom runs state.stage.channel then .full
    else
      match turnAlone appendDelta s reason budget state token with
      | .error _ => .ends
      | .ok (state', _, decision) =>
        if decision.finished then .ends
        else
          walkRound s reason (budget - 1) state'
            (if touches s reason budget state token then
              addRun runs state.stage.channel else runs) rest

/-- No round runs out of room. -/
def fitsRounds (s : SessionOptions) (reason : FinishReason) :
    Nat → DecoderState → List (List TokenId) → Bool
  | _, _, [] => true
  | budget, state, round :: rest =>
    match walkRound s reason budget state [] round with
    | .full => false
    | .ends => true
    | .goesOn budget' state' => fitsRounds s reason budget' state' rest

-- ============ one round

/-- The loop is a turn, and the loop from there. -/
theorem previewLoop_cons (append : Append) (s : SessionOptions)
    {budget : Nat} (reason : FinishReason) {count : Nat}
    (state : DecoderState) (output : PublishedOutput) (token : TokenId)
    {rest : List TokenId} (hreason : reason ≠ .none)
    (hle : count + rest.length < budget) :
    previewLoop append s budget reason count state output (token :: rest)
      = (previewLoop append s budget reason count state output [token]
        >>= fun r =>
          if r.2.2.finished then .ok r
          else previewLoop append s budget reason (count + 1) r.1 r.2.1
            rest) := by
  rw [previewLoop, previewLoop]
  cases hstep : previewToken append s (count + 1) state output token with
  | error e => rfl
  | ok step =>
    cases step with
    | finish state' output' r =>
      have hr := previewToken_reason hstep
      simp [ok_bind, finished, hr]
    | next state' output' =>
      rw [ok_bind, ok_bind]
      dsimp only
      by_cases hlast : count + 1 = budget
      · obtain rfl : rest = [] := by
          rw [← length_eq_zero_iff]
          omega
        rw [previewLoop, if_pos hlast]
        cases terminalize append s.policy (count + 1) state' output' with
        | error e => rfl
        | ok r => simp [ok_bind, finished, hreason]
      · have hgo : previewLoop append s budget reason (count + 1) state'
            output' [] = .ok (state', output', ⟨count + 1, .none⟩) := by
          rw [previewLoop, if_neg hlast]
        rw [hgo, ok_bind]
        simp [finished]

-- ============ the rounds

namespace OutputSession

/-- The session between rounds, its decoder at `state`. -/
def resume (s : OutputSession) (state : DecoderState) : OutputSession :=
  { s with
    state := state
    previewState := .start false
    previewOutput := []
    previewReady := false }

end OutputSession

/-- Between rounds only the decoder matters. -/
theorem feedRounds_eq_resume {s : OutputSession} {reason : FinishReason}
    (hready : s.previewReady = false) (budget : Nat)
    (rounds : List (List TokenId)) :
    feedRounds reason s budget rounds
      = feedRounds reason (s.resume s.state) budget rounds := by
  cases rounds with
  | nil => rfl
  | cons round rest =>
    have hsame : s.preview round budget reason
        = (s.resume s.state).preview round budget reason := by
      unfold OutputSession.preview
      rw [hready]
      rfl
    rw [feedRounds, feedRounds, hsame]

/-- What follows a round. -/
def after (s : OutputSession) (reason : FinishReason) (budget : Nat)
    (rest : List (List TokenId))
    (r : DecoderState × PublishedOutput × OutputDecision) :
    Except Exception SessionResult :=
  if r.2.2.finished then
    .ok (plus r.2.2.acceptedTokens (fun ch => textOn ch r.2.1)
      ⟨0, r.2.2.finishReason, [], [], r.1.reasoningTokens⟩)
  else
    (feedRounds reason (s.resume r.1) (budget - r.2.2.acceptedTokens)
      rest).map
        (plus r.2.2.acceptedTokens (fun ch => textOn ch r.2.1))

section

variable {s : OutputSession} {reason : FinishReason}
  {state state' : DecoderState} {budget budget' : Nat}

/-- A round from between rounds is its loop and what follows. -/
theorem feedRounds_cons {tokens : List TokenId}
    (rest : List (List TokenId)) (hlimit : LimitReason reason)
    (hterm : state.terminal = false) (hne : tokens ≠ [])
    (hle : tokens.length ≤ budget) :
    feedRounds reason (s.resume state) budget (tokens :: rest)
      = (previewLoop appendDelta s.toSessionOptions budget reason 0 state []
        tokens >>= after s reason budget rest) := by
  have hstate : (s.resume state).state = state := rfl
  have hready : (s.resume state).previewReady = false := rfl
  rw [feedRounds]
  unfold OutputSession.preview
  rw [hstate, hready, if_neg (by simp [hterm]), if_neg (by simp),
    if_neg (by simpa using hne), if_neg (by omega),
    if_neg (by rcases hlimit with h | h <;> simp [h])]
  have hopts : (s.resume state).toSessionOptions = s.toSessionOptions := rfl
  rw [hopts]
  cases previewLoop appendDelta s.toSessionOptions budget reason 0 state []
      tokens with
  | error e => rfl
  | ok r =>
    obtain ⟨st, output, d⟩ := r
    rw [ok_bind]
    unfold after
    dsimp only [ok_bind, OutputSession.commitPreview]
    split
    · rfl
    · rw [feedRounds_eq_resume rfl]
      rfl

-- ============ one per round

/-- The tokens, one per round. -/
def singles (tokens : List TokenId) : List (List TokenId) :=
  tokens.map fun t => [t]

theorem LimitReason.ne_none (h : LimitReason reason) : reason ≠ .none := by
  rcases h with rfl | rfl
  · decide
  · decide

variable {token : TokenId}

theorem feedRounds_single (rest : List (List TokenId))
    (hlimit : LimitReason reason) (hterm : state.terminal = false)
    (hpos : 0 < budget) :
    feedRounds reason (s.resume state) budget ([token] :: rest)
      = (turnAlone appendDelta s.toSessionOptions reason budget state token
        >>= after s reason budget rest) :=
  feedRounds_cons rest hlimit hterm (cons_ne_nil _ _) hpos

variable (hlimit : LimitReason reason)

include hlimit

/-- A turn of its own accepts its token; one that goes on leaves a decoder
to go on with. -/
theorem turnAlone_ok {r : DecoderState × PublishedOutput × OutputDecision}
    (hheld : Held state) (hterm : state.terminal = false) (hpos : 0 < budget)
    (h : turnAlone appendDelta s.toSessionOptions reason budget state token
      = .ok r) :
    r.2.2.acceptedTokens = 1
      ∧ (r.2.2.finished = false → r.1.terminal = false ∧ Held r.1) := by
  have hagrees : Agrees (TurnRel (Joined state.stage.channel []) state 0 0)
      (previewLoop appendDelta s.toSessionOptions budget reason 0 state []
        [token])
      (turnAlone appendDelta s.toSessionOptions reason (budget - 0) state
        token) :=
    turn_room (LimitReason.ne_none hlimit) hpos hheld rfl
  rw [Nat.sub_zero, h] at hagrees
  obtain ⟨r', hr', hrel⟩ := hagrees
  obtain rfl : r' = r := by
    have heq := hr'.symm.trans h
    cases heq
    rfl
  refine ⟨hrel.accepted₂, fun hgo => ?_⟩
  obtain ⟨hterm', hheld'⟩ := hrel.goesOn (by
    simpa [finished] using hgo)
  exact ⟨hterm'.trans hterm, hheld'⟩

/-- A turn that goes on leaves some of the budget. -/
theorem turnAlone_budget {r : DecoderState × PublishedOutput × OutputDecision}
    (h : turnAlone appendDelta s.toSessionOptions reason budget state token
      = .ok r) (hgo : r.2.2.finished = false) : budget ≠ 1 := by
  rintro rfl
  unfold turnAlone previewLoop at h
  obtain ⟨step, hstep, h⟩ := bind_ok.mp h
  cases step with
  | finish state' output r' =>
    cases h
    simp [finished, previewToken_reason hstep] at hgo
  | next state' output =>
    dsimp only at h
    rw [previewLoop, if_pos rfl] at h
    obtain ⟨e, -, h⟩ := bind_ok.mp h
    cases h
    simp [finished, LimitReason.ne_none hlimit] at hgo

/-- One per round, tokens that end the generation hide what follows. -/
theorem feedRounds_ends :
    ∀ (tokens : List TokenId) (budget : Nat) (state : DecoderState)
      (runs : List OutputChannel), Held state → state.terminal = false →
      tokens.length ≤ budget →
      walkRound s.toSessionOptions reason budget state runs tokens = .ends →
      ∀ rest rest', feedRounds reason (s.resume state) budget
        (singles tokens ++ rest)
        = feedRounds reason (s.resume state) budget
        (singles tokens ++ rest') := by
  intro tokens
  induction tokens with
  | nil =>
    intro budget state runs _ _ _ hwalk
    cases hwalk
  | cons token tokens ih =>
    intro budget state runs hheld hterm hle hwalk rest rest'
    rw [length_cons] at hle
    unfold walkRound at hwalk
    split at hwalk
    · cases hwalk
    have hpos : 0 < budget := by omega
    show feedRounds reason (s.resume state) budget
        ([token] :: (singles tokens ++ rest))
      = feedRounds reason (s.resume state) budget
        ([token] :: (singles tokens ++ rest'))
    rw [feedRounds_single _ hlimit hterm hpos,
      feedRounds_single _ hlimit hterm hpos]
    split at hwalk
    · next e hturn =>
      rw [hturn]
      rfl
    · next state' output d hturn =>
      obtain ⟨hacc, hgo⟩ := turnAlone_ok hlimit hheld hterm hpos hturn
      rw [hturn, ok_bind, ok_bind]
      unfold after
      dsimp only at hacc hgo ⊢
      split at hwalk
      · next hfin => rw [if_pos hfin, if_pos hfin]
      · next hfin =>
        obtain ⟨hterm', hheld'⟩ := hgo (by simpa using hfin)
        rw [if_neg hfin, if_neg hfin, hacc,
          ih (budget - 1) state' _ hheld' hterm' (by omega) hwalk rest rest']

/-- Tokens that go on come before what follows. -/
theorem feedRounds_goesOn :
    ∀ (tokens : List TokenId) (budget : Nat) (state : DecoderState)
      (runs : List OutputChannel), Held state → state.terminal = false →
      tokens.length ≤ budget →
      walkRound s.toSessionOptions reason budget state runs tokens
        = .goesOn budget' state' →
      Held state' ∧ state'.terminal = false ∧ budget' = budget - tokens.length
        ∧ ∃ n text, ∀ rest, feedRounds reason (s.resume state) budget
              (singles tokens ++ rest)
            = (feedRounds reason (s.resume state') budget' rest).map
                (plus n text) := by
  intro tokens
  induction tokens with
  | nil =>
    intro budget state runs hheld hterm _ hwalk
    cases hwalk
    refine ⟨hheld, hterm, rfl, 0, fun _ => [], fun rest => ?_⟩
    show feedRounds reason (s.resume state') budget' rest = _
    cases feedRounds reason (s.resume state') budget' rest with
    | error e => rfl
    | ok r => simp [Except.map, plus]
  | cons token tokens ih =>
    intro budget state runs hheld hterm hle hwalk
    rw [length_cons] at hle ⊢
    unfold walkRound at hwalk
    split at hwalk
    · cases hwalk
    split at hwalk
    · cases hwalk
    next st output d hturn =>
    split at hwalk
    · cases hwalk
    next hfin =>
    have hpos : 0 < budget := by omega
    obtain ⟨hacc, hgo⟩ := turnAlone_ok hlimit hheld hterm hpos hturn
    dsimp only at hacc hgo
    obtain ⟨hterm', hheld'⟩ := hgo (by simpa using hfin)
    obtain ⟨hheld'', hterm'', hbudget, n, text, hrest⟩ :=
      ih (budget - 1) st _ hheld' hterm' (by omega) hwalk
    refine ⟨hheld'', hterm'', by omega, 1 + n,
      fun ch => textOn ch output ++ text ch, fun rest => ?_⟩
    show feedRounds reason (s.resume state) budget
      ([token] :: (singles tokens ++ rest)) = _
    rw [feedRounds_single _ hlimit hterm hpos, hturn, ok_bind]
    unfold after
    dsimp only
    rw [if_neg hfin, hacc, hrest rest]
    cases feedRounds reason (s.resume state') budget' rest with
    | error e => rfl
    | ok r => simp only [Except.map, plus_plus]

/-- One per round, tokens never run out of room. -/
theorem feedRounds_singles_ne_overflow :
    ∀ (tokens : List TokenId) (budget : Nat) (state : DecoderState),
      Held state → state.terminal = false → tokens.length ≤ budget →
      feedRounds reason (s.resume state) budget (singles tokens)
        ≠ .error overflow := by
  intro tokens
  induction tokens with
  | nil =>
    intro budget state _ _ _ h
    cases h
  | cons token tokens ih =>
    intro budget state hheld hterm hle h
    rw [length_cons] at hle
    have hpos : 0 < budget := by omega
    change feedRounds reason (s.resume state) budget
      ([token] :: singles tokens) = _ at h
    rw [feedRounds_single _ hlimit hterm hpos] at h
    cases hturn : turnAlone appendDelta s.toSessionOptions reason budget
        state token with
    | error e =>
      rw [hturn] at h
      cases h
      exact turnAlone_ne_overflow (LimitReason.ne_none hlimit) hheld hturn
    | ok r =>
      obtain ⟨hacc, hgo⟩ := turnAlone_ok hlimit hheld hterm hpos hturn
      rw [hturn, ok_bind] at h
      unfold after at h
      split at h
      · cases h
      · next hfin =>
        obtain ⟨hterm', hheld'⟩ := hgo (by simpa using hfin)
        have hrest := ih (budget - 1) r.1 hheld' hterm' (by omega)
        rw [hacc] at h
        cases hmore : feedRounds reason (s.resume r.1) (budget - 1)
            (singles tokens) with
        | error e =>
          rw [hmore] at h
          cases h
          exact hrest hmore
        | ok more =>
          rw [hmore] at h
          cases h

-- ============ many

/-- A turn that appends nothing or has room; if it goes on, the runs of
the round are those of the walk. -/
theorem turn_agrees {count : Nat} {output : PublishedOutput}
    (hheld : Held state) (hlt : count < budget)
    (hfits : ¬ (touches s.toSessionOptions reason (budget - count) state
      token && !hasRoom (channels output) state.stage.channel) = true) :
    Agrees (fun r₁ r₂ =>
        TurnRel (Joined state.stage.channel output) state count 0 r₁ r₂
          ∧ (r₂.2.2.finished = false → channels r₁.2.1
            = if touches s.toSessionOptions reason (budget - count) state token
              then addRun (channels output) state.stage.channel
              else channels output))
      (previewLoop appendDelta s.toSessionOptions budget reason count
        state output [token])
      (turnAlone appendDelta s.toSessionOptions reason (budget - count)
        state token) := by
  have hreason := LimitReason.ne_none hlimit
  cases htouch : touches s.toSessionOptions reason (budget - count)
      state token with
  | false =>
    refine (turn_untouched hreason hlt hheld htouch).mono
      fun r₁ r₂ _ hrel => ⟨hrel.1, fun _ => ?_⟩
    rw [hrel.2]
    rfl
  | true =>
    refine (turn_room hreason hlt hheld
      (by simpa [htouch] using hfits)).mono
        fun r₁ r₂ hturn hrel => ⟨hrel, fun hgo => ?_⟩
    rcases hrel.output.runs with ⟨hnil, -⟩ | ⟨-, hruns⟩
    · obtain ⟨st, o, d⟩ := r₂
      obtain rfl : o = [] := hnil
      rw [touches_of_silent hreason hturn hgo] at htouch
      cases htouch
    · exact hruns

/-- The loop over tokens that the round has room for, and the same tokens
one per round. -/
theorem previewLoop_fits :
    ∀ (tokens : List TokenId) (count : Nat) (state : DecoderState)
      (output : PublishedOutput), Held state → state.terminal = false →
      count < budget → count + tokens.length ≤ budget →
      walkRound s.toSessionOptions reason (budget - count) state
        (channels output) tokens ≠ .full →
      ∀ rest, (previewLoop appendDelta s.toSessionOptions budget reason
        count state output tokens >>= after s reason budget rest)
        = (feedRounds reason (s.resume state) (budget - count)
        (singles tokens ++ rest)).map
          (plus count (fun ch => textOn ch output)) := by
  intro tokens
  induction tokens with
  | nil =>
    intro count state output _ _ hlt _ _ rest
    rw [previewLoop, if_neg (by omega), ok_bind]
    rfl
  | cons token tokens ih =>
    intro count state output hheld hterm hlt hle hwalk rest
    rw [length_cons] at hle
    unfold walkRound at hwalk
    split at hwalk
    · exact absurd rfl hwalk
    next hfits =>
    have hpos : 0 < budget - count := by omega
    have hagrees := turn_agrees hlimit hheld hlt hfits
    rw [previewLoop_cons appendDelta _ reason state output token
      (LimitReason.ne_none hlimit) (by omega)]
    show _ = (feedRounds reason (s.resume state) (budget - count)
      ([token] :: (singles tokens ++ rest))).map _
    rw [feedRounds_single _ hlimit hterm hpos]
    cases hturn : turnAlone appendDelta s.toSessionOptions reason
        (budget - count) state token with
    | error e =>
      rw [hturn] at hagrees
      have hround : previewLoop appendDelta s.toSessionOptions budget
        reason count state output [token] = .error e := hagrees
      rw [hround]
      rfl
    | ok r =>
      obtain ⟨hacc, hgo⟩ := turnAlone_ok hlimit hheld hterm hpos hturn
      rw [hturn] at hagrees hwalk
      obtain ⟨r', hround, hrel, hruns⟩ := hagrees
      have hfin : r'.2.2.finished = r.2.2.finished := by
        unfold finished
        rw [hrel.reason]
      have htext : (fun ch => textOn ch r'.2.1)
          = fun ch => textOn ch output ++ textOn ch r.2.1 :=
        funext hrel.output.text
      rw [hround, ok_bind, ok_bind]
      dsimp only at hwalk ⊢
      cases hd : r.2.2.finished with
      | true =>
        rw [hfin, hd, if_pos rfl, ok_bind]
        unfold after
        rw [hfin, hd, if_pos rfl, if_pos rfl, hrel.accepted₁,
          hrel.state, hrel.reason, htext, hacc]
        simp only [Except.map, plus_plus]
      | false =>
        obtain ⟨hterm', hheld'⟩ := hgo hd
        rw [hd, if_neg (by decide)] at hwalk
        have hsub : budget - count - 1 = budget - (count + 1) := by
          omega
        rw [hsub, ← hruns hd, ← hrel.state] at hwalk
        rw [← hrel.state] at hterm' hheld'
        have hbudget := turnAlone_budget hlimit hturn hd
        rw [hfin, hd, if_neg (by decide),
          ih (count + 1) r'.1 r'.2.1 hheld' hterm' (by omega)
            (by omega) hwalk rest]
        unfold after
        rw [hd, if_neg (by decide), hacc, hsub, hrel.state, htext]
        cases feedRounds reason (s.resume r.1) (budget - (count + 1))
            (singles tokens ++ rest) with
        | error e => rfl
        | ok more => simp only [Except.map, plus_plus]

/-- The loop over tokens of which one runs out of room. -/
theorem previewLoop_full :
    ∀ (tokens : List TokenId) (count : Nat) (state : DecoderState)
      (output : PublishedOutput), Held state → state.terminal = false →
      count + tokens.length ≤ budget →
      walkRound s.toSessionOptions reason (budget - count) state
        (channels output) tokens = .full →
      previewLoop appendDelta s.toSessionOptions budget reason count state
        output tokens = .error overflow := by
  intro tokens
  induction tokens with
  | nil =>
    intro count state output _ _ _ hwalk
    cases hwalk
  | cons token tokens ih =>
    intro count state output hheld hterm hle hwalk
    rw [length_cons] at hle
    have hlt : count < budget := by omega
    have hpos : 0 < budget - count := by omega
    rw [previewLoop_cons appendDelta _ reason state output token
      (LimitReason.ne_none hlimit) (by omega)]
    unfold walkRound at hwalk
    split at hwalk
    · next hfull =>
      rw [Bool.and_eq_true] at hfull
      rw [turn_overflows (LimitReason.ne_none hlimit) hlt hheld hfull.1
        (by simpa using hfull.2)]
      rfl
    next hfits =>
    have hagrees := turn_agrees hlimit hheld hlt hfits
    split at hwalk
    · cases hwalk
    next state' output' d hturn =>
    split at hwalk
    · cases hwalk
    next hd =>
    obtain ⟨hacc, hgo⟩ := turnAlone_ok hlimit hheld hterm hpos hturn
    obtain ⟨hterm', hheld'⟩ := hgo (by simpa using hd)
    rw [hturn] at hagrees
    obtain ⟨r', hround, hrel, hruns⟩ := hagrees
    have hfin : r'.2.2.finished = d.finished := by
      unfold finished
      rw [hrel.reason]
    have hsub : budget - count - 1 = budget - (count + 1) := by omega
    have hstate : r'.1 = state' := hrel.state
    rw [hsub, ← hruns (by simpa using hd), ← hstate] at hwalk
    rw [← hstate] at hterm' hheld'
    rw [hround, ok_bind, hfin, if_neg hd]
    exact ih (count + 1) r'.1 r'.2.1 hheld' hterm' (by omega) hwalk

/-- Rounds that fit give what their tokens give one per round; rounds that
do not, throw. -/
theorem feedRounds_fits :
    ∀ (rounds : List (List TokenId)) (budget : Nat) (state : DecoderState),
      Held state → state.terminal = false → (∀ r ∈ rounds, r ≠ []) →
      rounds.flatten.length ≤ budget →
      if fitsRounds s.toSessionOptions reason budget state rounds then
        feedRounds reason (s.resume state) budget rounds
        = feedRounds reason (s.resume state) budget (singles rounds.flatten)
      else
        feedRounds reason (s.resume state) budget rounds
        = .error overflow := by
  intro rounds
  induction rounds with
  | nil =>
    intro budget state _ _ _ _
    rfl
  | cons round rest ih =>
    intro budget state hheld hterm hne hle
    have hround : round ≠ [] := hne round mem_cons_self
    have hrest : ∀ r ∈ rest, r ≠ [] :=
      fun r hr => hne r (mem_cons_of_mem _ hr)
    rw [flatten_cons, length_append] at hle
    have hpos : 0 < round.length := length_pos_iff.mpr hround
    have hsingles : singles (round ++ rest.flatten)
        = singles round ++ singles rest.flatten := map_append
    have hfirst : ∀ rest, walkRound s.toSessionOptions reason budget state
        [] round ≠ .full →
        feedRounds reason (s.resume state) budget (round :: rest)
          = feedRounds reason (s.resume state) budget
              (singles round ++ rest) := by
      intro rest hwalk
      rw [feedRounds_cons rest hlimit hterm hround (by omega),
        previewLoop_fits hlimit round 0 state [] hheld hterm (by omega)
          (by omega) hwalk rest]
      rw [Nat.sub_zero]
      cases feedRounds reason (s.resume state) budget
          (singles round ++ rest) with
      | error e => rfl
      | ok r => simp [Except.map, plus]
    rw [fitsRounds, flatten_cons, hsingles]
    cases hwalk : walkRound s.toSessionOptions reason budget state []
        round with
    | full =>
      rw [if_neg Bool.false_ne_true,
        feedRounds_cons rest hlimit hterm hround (by omega),
        previewLoop_full hlimit round 0 state [] hheld hterm (by omega) hwalk]
      rfl
    | ends =>
      rw [if_pos rfl, hfirst rest (by rw [hwalk]; nofun)]
      exact feedRounds_ends hlimit round budget state [] hheld hterm
        (by omega) hwalk rest (singles rest.flatten)
    | goesOn budget' state' =>
      obtain ⟨hheld', hterm', hbudget, n, text, hgo⟩ :=
        feedRounds_goesOn hlimit round budget state [] hheld hterm
          (by omega) hwalk
      have htail := ih budget' state' hheld' hterm' hrest (by omega)
      rw [hfirst rest (by rw [hwalk]; nofun), hgo, hgo]
      dsimp only
      split
      · next hfits =>
        rw [if_pos hfits] at htail
        rw [htail]
      · next hfits =>
        rw [if_neg hfits] at htail
        rw [htail]
        rfl

omit hlimit

end

theorem held_start (parseAtem : Bool) : Held (.start parseAtem) :=
  fun _ hne => absurd rfl hne

/-- A division into rounds gives what the tokens give one per round, or
throws what they throw, exactly when every round fits. -/
theorem feedRounds_partition_iff (tokenizer : Tokenizer)
    (policy : StopPolicy) (raw preserve parseAtem : Bool)
    (reason : FinishReason) (hlimit : LimitReason reason) (budget : Nat)
    (rounds : List (List TokenId)) (hne : ∀ r ∈ rounds, r ≠ [])
    (hle : rounds.flatten.length ≤ budget) :
    feedRounds reason (.make tokenizer policy raw preserve parseAtem)
          budget rounds
        = feedRounds reason (.make tokenizer policy raw preserve parseAtem)
          budget (rounds.flatten.map fun t => [t])
      ↔ fitsRounds
          (OutputSession.make tokenizer policy raw preserve
            parseAtem).toSessionOptions
          reason budget (.start (parseAtem && !raw)) rounds = true := by
  have hheld := held_start (parseAtem && !raw)
  have hfits := feedRounds_fits
    (s := .make tokenizer policy raw preserve parseAtem) hlimit rounds
    budget (.start (parseAtem && !raw)) hheld rfl hne hle
  have hsingles := feedRounds_singles_ne_overflow
    (s := .make tokenizer policy raw preserve parseAtem) hlimit
    rounds.flatten budget (.start (parseAtem && !raw)) hheld rfl hle
  constructor
  · intro heq
    by_contra hnot
    rw [if_neg hnot] at hfits
    exact hsingles (heq.symm.trans hfits)
  · intro hyes
    rw [if_pos hyes] at hfits
    exact hfits

/-- The protocol's tokens, two header texts, and the printable ASCII
characters as one-byte tokens. -/
def atemTokenizer : Tokenizer where
  idToToken id :=
    if id = 200007 ∨ id = 200022 ∨ id = 200023 then some (.added [] true)
    else if id = 1 then some (.added (ascii " to=self") false)
    else if id = 2 then some (.added (ascii "assistant") false)
    else if Tokenizer.visible id then some (.ordinary [id]) else none

/-- Reasoning, content, reasoning again, in one round of 14 tokens. -/
def threeMessages : List TokenId :=
  [1, 200023, 0x61, 200007, 200022, 2, 200023, 0x62, 200007, 200022, 2, 1,
    200023, 0x63]

/-- One round of three messages throws; its tokens one per round do not. -/
theorem feedRounds_three_messages :
    feedRounds .outputLimit
        (.make atemTokenizer ⟨[], [], false⟩ false false true) 20
        [threeMessages]
      = .error (.logicError
          "output decoder produced more than two channel transitions")
    ∧ feedRounds .outputLimit
        (.make atemTokenizer ⟨[], [], false⟩ false false true) 20
        (threeMessages.map fun t => [t])
      = .ok ⟨14, .none, ascii "b", ascii "ac", 3⟩ := by
  constructor
  · rfl
  · rfl

/-- The first two messages fit in a round. -/
theorem feedRounds_partition_two_messages :
    feedRounds .outputLimit
        (.make atemTokenizer ⟨[], [], false⟩ false false true) 20
        [threeMessages.take 8, threeMessages.drop 8]
      = feedRounds .outputLimit
          (.make atemTokenizer ⟨[], [], false⟩ false false true) 20
          (threeMessages.map fun t => [t]) :=
  (feedRounds_partition_iff atemTokenizer ⟨[], [], false⟩ false false true
    .outputLimit (Or.inl rfl) 20
    [threeMessages.take 8, threeMessages.drop 8]
    (by decide) (by decide)).mpr (by decide +kernel)

end Ginfer.Muse
