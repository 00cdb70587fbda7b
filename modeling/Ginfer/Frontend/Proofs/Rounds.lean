/-
Rounds do not matter.

A speculative round hands the session several tokens at once; an ordinary
one hands it one. `feedRounds_partition` says the difference is invisible:
whatever a division of the tokens into rounds produces — how many tokens
are accepted, why the generation ended, the text of each channel, the
count of reasoning tokens — feeding the same tokens one per round produces
too.

The argument is one turn of `preview`'s loop at a time. A turn inside a
round and the same token in a round of its own are the two runs of
Proofs/Lockstep.lean: same decoder, outputs differing by what the round
had already emitted (`previewToken_twin`). `previewLoop_singles` strings
the turns together, and the budget falls into place because a round that
exhausts it does so at its last token, exactly where the round of that
token alone would.
-/
import Ginfer.Frontend.Proofs.Lockstep

namespace Ginfer.Frontend

open Ginfer.Lib SessionOptions OutputDecision List

namespace SessionOptions

variable {base : OutputChannel → Bytes} {c₁ c₂ : Nat}

-- ============ one token

/-- The token can be read in this decoder state: it is in the vocabulary,
it decodes, and its bytes continue the pending ones as the scanner
wants. -/
def Readable (s : SessionOptions) (state : DecoderState) (token : TokenId) :
    Prop :=
  s.tokenizer.isValidToken token = true
    ∧ ∃ bytes valid,
        s.tokenizer.decodeTokenBytes token (!s.preserveSpecial) = .ok bytes
          ∧ validUtf8PrefixSize (state.utf8Pending ++ bytes) = .ok valid

/-- Two turns that did the same: on to the same decoder with twin
outputs, or to the same end with outputs differing by `base`. -/
def StepTwin (base : OutputChannel → Bytes) (state : DecoderState) :
    TokenStep → TokenStep → Prop
  | .next st₁ o₁, .next st₂ o₂ =>
    st₁ = st₂ ∧ Twin base st₁.inReasoning o₁ o₂ ∧ st₁.terminal = state.terminal
  | .finish st₁ o₁ r₁, .finish st₂ o₂ r₂ =>
    st₁ = st₂ ∧ r₁ = r₂ ∧ r₁ ≠ .none
      ∧ ∀ ch, textOn ch o₁ = base ch ++ textOn ch o₂
  | _, _ => False

@[simp] theorem countToken_inReasoning (state : DecoderState) :
    (countToken state).inReasoning = state.inReasoning := by
  unfold countToken
  split
  · rfl
  · rfl

@[simp] theorem countToken_utf8Pending (state : DecoderState) :
    (countToken state).utf8Pending = state.utf8Pending := by
  unfold countToken
  split
  · rfl
  · rfl

@[simp] theorem countToken_terminal (state : DecoderState) :
    (countToken state).terminal = state.terminal := by
  unfold countToken
  split
  · rfl
  · rfl

/-- Ending on a stop token, published or not. -/
theorem finishOnStopToken_twin (s : SessionOptions) {before : DecoderState}
    {o₁ o₂ : PublishedOutput} {f₁ f₂ : Feed}
    (hbefore : Twin base before.inReasoning o₁ o₂)
    (hfed : Lockstep base c₁ c₂ f₁ f₂) :
    ∃ st e₁ e₂, s.finishOnStopToken c₁ before o₁ f₁
        = .ok (.finish st e₁ .stopToken)
      ∧ s.finishOnStopToken c₂ before o₂ f₂ = .ok (.finish st e₂ .stopToken)
      ∧ ∀ ch, textOn ch e₁ = base ch ++ textOn ch e₂ := by
  unfold finishOnStopToken
  split
  · obtain ⟨st, e₁, e₂, h₁, h₂, ht⟩ :=
      terminalize_twin s.policy c₁ c₂ hfed.emitted
    rw [hfed.state] at h₂
    simp only [h₁, h₂]
    exact ⟨st, e₁, e₂, rfl, rfl, ht⟩
  · obtain ⟨st, e₁, e₂, h₁, h₂, ht⟩ :=
      terminalize_twin s.policy c₁ c₂ hbefore
    simp only [h₁, h₂]
    exact ⟨st, e₁, e₂, rfl, rfl, ht⟩

variable {token : TokenId}

/-- The same readable token, inside a round and in one of its own. -/
theorem previewToken_twin (s : SessionOptions)
    (base : OutputChannel → Bytes) (c₁ c₂ : Nat) {state : DecoderState}
    {o₁ o₂ : PublishedOutput} (hread : s.Readable state token)
    (h : Twin base state.inReasoning o₁ o₂) :
    ∃ x₁ x₂, s.previewToken c₁ state o₁ token = .ok x₁
      ∧ s.previewToken c₂ state o₂ token = .ok x₂
      ∧ StepTwin base state x₁ x₂ := by
  obtain ⟨hvalid, bytes, valid, hbytes, hscan⟩ := hread
  have hcounted : Twin base (countToken state).inReasoning o₁ o₂ := by
    rw [countToken_inReasoning]
    exact h
  have hstart : Lockstep base c₁ c₂ ⟨countToken state, o₁, some .empty⟩
      ⟨countToken state, o₂, some .empty⟩ :=
    ⟨rfl, hcounted, rfl, fun hfound => absurd hfound (by decide)⟩
  obtain ⟨f₁, f₂, hf₁, hf₂, hf, hterm⟩ :=
    feedTokenBytes_lockstep s.policy bytes hstart valid
      (by rw [countToken_utf8Pending]; exact hscan)
  have hterm' : f₁.state.terminal = state.terminal := by
    rw [hterm]
    exact countToken_terminal state
  unfold previewToken
  rw [if_neg (by simp [hvalid]), if_neg (by simp [hvalid]), hbytes]
  simp only
  rw [hf₁, hf₂]
  simp only
  have hbest := hf.best
  revert hbest
  match f₁.best, f₂.best with
  | none, none =>
    intro _
    simp only [Option.filter_none]
    split
    · obtain ⟨st, e₁, e₂, h₁, h₂, ht⟩ :=
        finishOnStopToken_twin s hcounted hf
      exact ⟨_, _, h₁, h₂, rfl, rfl, by decide, ht⟩
    · exact ⟨_, _, rfl, rfl, hf.state, hf.emitted, hterm'⟩
  | none, some _ => exact False.elim
  | some _, none => exact False.elim
  | some m₁, some m₂ =>
    rintro ⟨hfound, hmatch⟩
    cases hm : m₁.found with
    | true =>
      have hm₂ : m₂.found = true := hfound ▸ hm
      simp only [Option.filter_some, hm, hm₂, if_true]
      obtain ⟨-, -, -, -, htext⟩ := hmatch hm
      exact ⟨_, _, rfl, rfl, congrArg terminalState hf.state, rfl,
        by decide, htext⟩
    | false =>
      have hm₂ : m₂.found = false := hfound ▸ hm
      simp only [Option.filter_some, hm, hm₂, Bool.false_eq_true, if_false]
      split
      · obtain ⟨st, e₁, e₂, h₁, h₂, ht⟩ :=
          finishOnStopToken_twin s hcounted hf
        exact ⟨_, _, h₁, h₂, rfl, rfl, by decide, ht⟩
      · exact ⟨_, _, rfl, rfl, hf.state, hf.emitted, hterm'⟩

/-- A token that cannot be read throws, whatever the round holds. -/
theorem previewToken_throws (s : SessionOptions) {state : DecoderState}
    (hread : ¬ s.Readable state token) (count : Nat)
    (output : PublishedOutput) :
    ∃ e, s.previewToken count state output token = .error e := by
  unfold previewToken
  split
  · exact ⟨_, rfl⟩
  next hvalid =>
  simp only
  cases hbytes : s.tokenizer.decodeTokenBytes token (!s.preserveSpecial) with
  | error e => exact ⟨e, rfl⟩
  | ok bytes =>
    simp only
    unfold feedTokenBytes
    simp only [countToken_utf8Pending]
    cases hscan : validUtf8PrefixSize (state.utf8Pending ++ bytes) with
    | error e => exact ⟨e, rfl⟩
    | ok valid =>
      exact absurd ⟨by simpa using hvalid, bytes, valid, hbytes, hscan⟩ hread

variable {count : Nat} {output : PublishedOutput} {s : SessionOptions}

/-- So a turn that returned read its token. -/
theorem readable_of_previewToken {state : DecoderState} {x : TokenStep}
    (h : s.previewToken count state output token = .ok x) :
    s.Readable state token := by
  by_contra hread
  obtain ⟨e, he⟩ := s.previewToken_throws hread count output
  rw [h] at he
  cases he

/-- A token that ends its round ends a round of its own. -/
theorem previewToken_alone_finish {state st : DecoderState}
    {o : PublishedOutput} {r : FinishReason}
    (hstaged : Staged state.inReasoning output)
    (hstep : s.previewToken count state output token = .ok (.finish st o r)) :
    ∃ o₂, s.previewToken 1 state [] token = .ok (.finish st o₂ r) ∧ r ≠ .none
      ∧ ∀ ch, textOn ch o = textOn ch output ++ textOn ch o₂ := by
  obtain ⟨x₁, x₂, h₁, h₂, hx⟩ := previewToken_twin s
    (fun ch => textOn ch output) count 1
    (readable_of_previewToken hstep)
    ⟨hstaged, Staged.nil _, by simp⟩
  rw [hstep] at h₁
  cases h₁
  cases x₂ with
  | next st₂ o₂ => exact hx.elim
  | finish st₂ o₂ r₂ =>
    obtain ⟨rfl, rfl, hr, htext⟩ := hx
    exact ⟨o₂, h₂, hr, htext⟩

/-- A token that goes on in its round goes on in a round of its own. -/
theorem previewToken_alone_next {state st : DecoderState}
    {o : PublishedOutput} (hstaged : Staged state.inReasoning output)
    (hstep : s.previewToken count state output token = .ok (.next st o)) :
    ∃ o₂, s.previewToken 1 state [] token = .ok (.next st o₂)
      ∧ Twin (fun ch => textOn ch output) st.inReasoning o o₂
      ∧ st.terminal = state.terminal := by
  obtain ⟨x₁, x₂, h₁, h₂, hx⟩ := previewToken_twin s
    (fun ch => textOn ch output) count 1
    (readable_of_previewToken hstep)
    ⟨hstaged, Staged.nil _, by simp⟩
  rw [hstep] at h₁
  cases h₁
  cases x₂ with
  | finish st₂ o₂ r₂ => exact hx.elim
  | next st₂ o₂ =>
    obtain ⟨rfl, htwin, hterm⟩ := hx
    exact ⟨o₂, h₂, htwin, hterm⟩

end SessionOptions

namespace OutputSession

-- ============ one round

/-- The session between rounds, its decoder at `state`. -/
def resume (s : OutputSession) (state : DecoderState) : OutputSession :=
  { s with
    state := state
    previewState := .start false
    previewOutput := []
    previewReady := false }

/-- The limit reasons `preview` admits. -/
def LimitReason (limit : FinishReason) : Prop :=
  limit = .outputLimit ∨ limit = .contextCapacity

variable {tokens : List TokenId} {limit : FinishReason}

/-- A preview that returned passed its checks, and its loop returned. -/
theorem preview_ok {s p : OutputSession} {budget : Nat} {d : OutputDecision}
    (h : s.preview tokens budget limit = .ok (d, p)) :
    s.state.terminal = false ∧ s.previewReady = false ∧ tokens ≠ []
      ∧ tokens.length ≤ budget ∧ LimitReason limit
      ∧ ∃ state output,
        s.previewLoop budget limit 0 s.state [] tokens = .ok (state, output, d)
          ∧ p = { s with previewState := state, previewOutput := output,
                           previewReady := true } := by
  unfold preview at h
  split at h
  · cases h
  next hterm =>
  split at h
  · cases h
  next hready =>
  split at h
  · cases h
  next hempty =>
  split at h
  · cases h
  next hbudget =>
  split at h
  · cases h
  next hlimit =>
  split at h
  · cases h
  next state output decision hloop =>
  cases h
  refine ⟨by simpa using hterm, by simpa using hready,
    by simpa using hempty, by omega, ?_, state, output, hloop, rfl⟩
  unfold LimitReason
  by_contra hnot
  exact hlimit (by simpa [not_or] using hnot)

variable {s : SessionOptions} {token : TokenId}

/-- A token that finishes gives a reason. -/
theorem previewToken_reason {count : Nat}
    {state state' : DecoderState} {output output' : PublishedOutput}
    {reason : FinishReason}
    (h : s.previewToken count state output token
      = .ok (.finish state' output' reason)) : reason ≠ .none := by
  unfold previewToken at h
  split at h
  · cases h
  dsimp only at h
  split at h
  · cases h
  split at h
  · cases h
  split at h
  · cases h
    decide
  split at h
  · unfold finishOnStopToken at h
    dsimp only at h
    split at h
    · cases h
    · cases h
      decide
  · cases h

/-- What the loop accepts: tokens of the round, all of them and not the
whole budget when it does not finish. -/
theorem previewLoop_accepts {budget : Nat} (hlimit : limit ≠ .none) :
    ∀ (tokens : List TokenId) {count : Nat} {state state' : DecoderState}
      {output output' : PublishedOutput} {d : OutputDecision},
      s.previewLoop budget limit count state output tokens
        = .ok (state', output', d) →
      count + tokens.length ≤ budget →
      d.acceptedTokens ≤ budget
        ∧ (d.finished = false → d.acceptedTokens < budget) := by
  intro tokens
  induction tokens with
  | nil =>
    intro count state state' output output' d h hle
    rw [length_nil] at hle
    unfold previewLoop at h
    split at h
    · next heq =>
      split at h
      · cases h
      · cases h
        refine ⟨by dsimp only; omega, fun hno => absurd ?_ hlimit⟩
        simpa [finished] using hno
    · cases h
      exact ⟨by dsimp only; omega, fun _ => by dsimp only; omega⟩
  | cons token rest ih =>
    intro count state state' output output' d h hle
    rw [length_cons] at hle
    unfold previewLoop at h
    split at h
    · cases h
    · next hfinish =>
      cases h
      refine ⟨by dsimp only; omega,
        fun hno => absurd ?_ (previewToken_reason hfinish)⟩
      simpa [finished] using hno
    · exact ih h (by omega)

/-- A session accepts what its budget covers, and one that does not finish
leaves some of it. -/
theorem preview_unfinished {s p : OutputSession}
    {budget : Nat} {d : OutputDecision}
    (h : s.preview tokens budget limit = .ok (d, p)) :
    d.acceptedTokens ≤ budget
      ∧ (d.finished = false → d.acceptedTokens < budget) := by
  obtain ⟨-, -, -, hbudget, hlimit, state, output, hloop, -⟩ := preview_ok h
  refine previewLoop_accepts ?_ tokens hloop (by omega)
  rcases hlimit with rfl | rfl
  · decide
  · decide

/-- From a session between rounds a preview is its loop. -/
theorem preview_resume {s : OutputSession} {state : DecoderState}
    {budget : Nat} (hterm : state.terminal = false) (hne : tokens ≠ [])
    (hbudget : tokens.length ≤ budget) (hlimit : LimitReason limit) :
    (s.resume state).preview tokens budget limit
      = match s.previewLoop budget limit 0 state [] tokens with
        | .error e => .error e
        | .ok (state', output, d) =>
        .ok (d, { s with
          state := state, previewState := state',
            previewOutput := output, previewReady := true }) := by
  have hstate : (s.resume state).state = state := rfl
  have hready : (s.resume state).previewReady = false := rfl
  unfold preview
  rw [hstate, hready, if_neg (by simp [hterm]), if_neg (by simp),
    if_neg (by simpa using hne), if_neg (by omega),
    if_neg (by rcases hlimit with h | h <;> simp [h])]
  rfl

end OutputSession

open SessionOptions OutputSession

-- ============ the rounds

/-- Between rounds only the decoder matters. -/
theorem feedRounds_eq_resume {s : OutputSession}
    (hready : s.previewReady = false) (budget : Nat)
    (rounds : List (List TokenId)) :
    feedRounds limit s budget rounds
      = feedRounds limit (s.resume s.state) budget rounds := by
  cases rounds with
  | nil => rfl
  | cons round rest =>
    have hsame : s.preview round budget limit
        = (s.resume s.state).preview round budget limit := by
      unfold preview
      rw [hready]
      rfl
    rw [feedRounds, feedRounds, hsame]

/-- Tokens and text put in front of a result. -/
def SessionResult.plus (n : Nat) (text : OutputChannel → Bytes)
    (r : SessionResult) : SessionResult :=
  { r with
    acceptedTokens := n + r.acceptedTokens
    content := text .content ++ r.content
    reasoning := text .reasoning ++ r.reasoning }

theorem SessionResult.plus_plus (n m : Nat)
    (f g : OutputChannel → Bytes) (r : SessionResult) :
    (r.plus m g).plus n f = r.plus (n + m) (fun ch => f ch ++ g ch) := by
  unfold plus
  simp only [Nat.add_assoc, append_assoc]

/-- A round committed from between rounds, and what follows it. -/
theorem feedRounds_resume {s : OutputSession} {state state' : DecoderState}
    {tokens : List TokenId} {rest : List (List TokenId)} {budget : Nat}
    {output : PublishedOutput} {d : OutputDecision}
    (hterm : state.terminal = false) (hne : tokens ≠ [])
    (hbudget : tokens.length ≤ budget) (hlimit : LimitReason limit)
    (hloop : s.previewLoop budget limit 0 state [] tokens
      = .ok (state', output, d)) :
    feedRounds limit (s.resume state) budget (tokens :: rest)
      = if d.finished then
        .ok (SessionResult.plus d.acceptedTokens (fun ch => textOn ch output)
          ⟨0, d.finishReason, [], [], state'.reasoningTokens⟩)
        else
        (feedRounds limit (s.resume state')
          (budget - d.acceptedTokens) rest).map
            (SessionResult.plus d.acceptedTokens
              (fun ch => textOn ch output)) := by
  rw [feedRounds, preview_resume hterm hne hbudget hlimit, hloop]
  simp only
  split
  · rfl
  · rw [feedRounds_eq_resume rfl]
    rfl

section

variable {s : OutputSession} {limit : FinishReason} {budget : Nat}
  {state st : DecoderState} {token : TokenId} {o : PublishedOutput}

variable (hlimit : LimitReason limit) (hterm : state.terminal = false)

include hlimit hterm

/-- A round of one token that finishes. -/
theorem feedRounds_single_finish {r : FinishReason}
    (hbudget : 0 < budget) (hr : r ≠ .none)
    (hstep : s.previewToken 1 state [] token = .ok (.finish st o r))
    (rest : List (List TokenId)) :
    feedRounds limit (s.resume state) budget ([token] :: rest)
      = .ok (SessionResult.plus 1 (fun ch => textOn ch o)
        ⟨0, r, [], [], st.reasoningTokens⟩) := by
  have hloop : s.previewLoop budget limit 0 state [] [token]
      = .ok (st, o, ⟨1, r⟩) := by
    rw [previewLoop, hstep]
  rw [feedRounds_resume hterm (by simp) hbudget hlimit hloop,
    if_pos (by simpa [finished] using hr)]

/-- A round of one token that goes on. -/
theorem feedRounds_single_next (budget : Nat) (hbudget : 1 < budget)
    (hstep : s.previewToken 1 state [] token = .ok (.next st o))
    (rest : List (List TokenId)) :
    feedRounds limit (s.resume state) budget ([token] :: rest)
      = (feedRounds limit (s.resume st) (budget - 1) rest).map
        (SessionResult.plus 1 (fun ch => textOn ch o)) := by
  have hloop : s.previewLoop budget limit 0 state [] [token]
      = .ok (st, o, ⟨1, .none⟩) := by
    rw [previewLoop, hstep]
    simp only
    rw [previewLoop, if_neg (by omega)]
  rw [feedRounds_resume hterm (by simp) (by simp; omega) hlimit hloop,
    if_neg (by simp [finished])]

/-- A round of one token that uses up the budget. -/
theorem feedRounds_single_limit {st' : DecoderState} {o' : PublishedOutput}
    (hstep : s.previewToken 1 state [] token = .ok (.next st o))
    (hend : terminalize s.policy 1 st o = .ok (st', o'))
    (rest : List (List TokenId)) :
    feedRounds limit (s.resume state) 1 ([token] :: rest)
      = .ok (SessionResult.plus 1 (fun ch => textOn ch o')
        ⟨0, limit, [], [], st'.reasoningTokens⟩) := by
  have hloop : s.previewLoop 1 limit 0 state [] [token]
      = .ok (st', o', ⟨1, limit⟩) := by
    rw [previewLoop, hstep]
    simp only
    rw [previewLoop, if_pos rfl, hend]
  have hfin : (⟨1, limit⟩ : OutputDecision).finished = true := by
    rcases hlimit with h | h <;> rw [h] <;> rfl
  rw [feedRounds_resume hterm (by simp) (by simp) hlimit hloop, if_pos hfin]

omit hlimit hterm

end

/-- The loop over a round, and the same tokens one per round: they add
the same text `g`, and either both end, or both go on from the same
decoder. -/
theorem previewLoop_singles {s : OutputSession} {budget : Nat}
    (hlimit : LimitReason limit) :
    ∀ (tokens : List TokenId) (token : TokenId) (count : Nat)
      (state state' : DecoderState) (output output' : PublishedOutput)
      (d : OutputDecision),
      state.terminal = false → Staged state.inReasoning output →
      count + tokens.length < budget →
      s.previewLoop budget limit count state output (token :: tokens)
        = .ok (state', output', d) →
      ∃ g : OutputChannel → Bytes,
        (∀ ch, textOn ch output' = textOn ch output ++ g ch)
        ∧ count < d.acceptedTokens
        ∧ (d.finished = true → ∀ rest,
        feedRounds limit (s.resume state) (budget - count)
            ((token :: tokens).map (fun t => [t]) ++ rest)
          = .ok (SessionResult.plus (d.acceptedTokens - count) g
              ⟨0, d.finishReason, [], [], state'.reasoningTokens⟩))
        ∧ (d.finished = false → state'.terminal = false ∧ ∀ rest,
        feedRounds limit (s.resume state) (budget - count)
            ((token :: tokens).map (fun t => [t]) ++ rest)
          = (feedRounds limit (s.resume state')
              (budget - d.acceptedTokens) rest).map
                (SessionResult.plus (d.acceptedTokens - count) g)) := by
  intro tokens
  induction tokens with
  | nil =>
    intro token count state state' output output' d hterm hstaged hbudget hloop
    simp only [length_nil, Nat.add_zero] at hbudget
    rw [previewLoop] at hloop
    split at hloop
    · cases hloop
    · next st o r hstep =>
      cases hloop
      obtain ⟨o₂, h₂, hr, htext⟩ :=
        previewToken_alone_finish hstaged hstep
      refine ⟨fun ch => textOn ch o₂, htext, by simp, ?_, ?_⟩
      · intro _ rest
        rw [Nat.add_sub_cancel_left]
        exact feedRounds_single_finish hlimit hterm (by omega) hr h₂ rest
      · intro hfin
        simp [finished, hr] at hfin
    · next st o hstep =>
      obtain ⟨o₂, h₂, htwin, hterm'⟩ :=
        previewToken_alone_next hstaged hstep
      rw [previewLoop] at hloop
      split at hloop
      · next hlast =>
        -- the round's last token is the budget's last token
        obtain ⟨st', e₁, e₂, he₁, he₂, htext⟩ :=
          terminalize_twin s.policy (count + 1) 1 htwin
        rw [he₁] at hloop
        cases hloop
        refine ⟨fun ch => textOn ch e₂, htext, by simp, ?_, ?_⟩
        · intro _ rest
          have hone : budget - count = 1 := by omega
          rw [hone, Nat.add_sub_cancel_left]
          exact feedRounds_single_limit hlimit hterm h₂ he₂ rest
        · intro hfin
          rcases hlimit with h | h <;> simp [finished, h] at hfin
      · next hmore =>
        cases hloop
        refine ⟨fun ch => textOn ch o₂, htwin.text, by simp, ?_, ?_⟩
        · intro hfin
          simp [finished] at hfin
        · intro _
          refine ⟨hterm'.trans hterm, fun rest => ?_⟩
          have hsub : budget - (count + 1) = budget - count - 1 := by
            omega
          rw [hsub, Nat.add_sub_cancel_left]
          exact feedRounds_single_next hlimit hterm _ (by omega) h₂ rest
  | cons next rest ih =>
    intro token count state state' output output' d hterm hstaged hbudget hloop
    simp only [length_cons] at hbudget
    rw [previewLoop] at hloop
    split at hloop
    · cases hloop
    · next st o r hstep =>
      cases hloop
      obtain ⟨o₂, h₂, hr, htext⟩ :=
        previewToken_alone_finish hstaged hstep
      refine ⟨fun ch => textOn ch o₂, htext, by simp, ?_, ?_⟩
      · intro _ more
        rw [Nat.add_sub_cancel_left]
        exact feedRounds_single_finish hlimit hterm (by omega) hr h₂ _
      · intro hfin
        simp [finished, hr] at hfin
    · next st o hstep =>
      obtain ⟨o₂, h₂, htwin, hterm'⟩ :=
        previewToken_alone_next hstaged hstep
      obtain ⟨g, hg, hcount, hfin, hgo⟩ := ih next (count + 1) st state'
        o output' d (hterm'.trans hterm) htwin.staged₁ (by omega) hloop
      have hsub : budget - (count + 1) = budget - count - 1 := by omega
      have hacc : 1 + (d.acceptedTokens - (count + 1))
          = d.acceptedTokens - count := by omega
      have hstart := feedRounds_single_next hlimit hterm
        (budget - count) (by omega) h₂
      refine ⟨fun ch => textOn ch o₂ ++ g ch, ?_, by omega, ?_, ?_⟩
      · intro ch
        rw [hg ch, htwin.text ch, append_assoc]
      · intro hd more
        rw [map_cons, cons_append, hstart, ← hsub, hfin hd more]
        simp only [Except.map, SessionResult.plus_plus, hacc]
      · intro hd
        obtain ⟨hterm'', hrest⟩ := hgo hd
        refine ⟨hterm'', fun more => ?_⟩
        rw [map_cons, cons_append, hstart, ← hsub, hrest more]
        cases feedRounds limit (s.resume state')
            (budget - d.acceptedTokens) more with
        | error e => rfl
        | ok r =>
          simp only [Except.map, SessionResult.plus_plus, hacc]

/-- Round-partition independence: whatever a division into rounds
produces, the tokens fed one per round produce. -/
theorem feedRounds_partition (limit : FinishReason) :
    ∀ (rounds : List (List TokenId)) (s : OutputSession) (budget : Nat)
      (r : SessionResult), feedRounds limit s budget rounds = .ok r →
      feedRounds limit s budget (rounds.flatten.map fun t => [t])
        = .ok r := by
  intro rounds
  induction rounds with
  | nil =>
    intro s budget r h
    exact h
  | cons round rest ih =>
    intro s budget r h
    rw [feedRounds] at h
    split at h
    · cases h
    next d p hpreview =>
    obtain ⟨hterm, hready, hne, hbudget, hlimit, state, output, hloop,
      rfl⟩ := preview_ok hpreview
    obtain ⟨token, tokens, rfl⟩ := List.exists_cons_of_ne_nil hne
    rw [List.length_cons] at hbudget
    obtain ⟨g, hg, hcount, hfin, hgo⟩ := previewLoop_singles hlimit tokens
      token 0 s.state state [] output d hterm (Staged.nil _) (by omega)
      hloop
    have hg' : (fun ch => textOn ch output) = g := by
      funext ch
      exact hg ch
    rw [feedRounds_eq_resume hready, List.flatten_cons, List.map_append]
    simp only [commitPreview] at h
    split at h
    · next hd =>
      rw [← Nat.sub_zero budget, hfin hd, ← h, ← hg']
      rfl
    · next hd =>
      obtain ⟨hterm', hrest⟩ := hgo (by simpa using hd)
      rw [feedRounds_eq_resume rfl] at h
      change (feedRounds limit (s.resume state)
        (budget - d.acceptedTokens) rest).map _ = _ at h
      have hgo' := hrest (rest.flatten.map fun t => [t])
      rw [Nat.sub_zero, Nat.sub_zero] at hgo'
      rw [hgo']
      cases hmore : feedRounds limit (s.resume state)
          (budget - d.acceptedTokens) rest with
      | error e =>
        rw [hmore] at h
        cases h
      | ok r' =>
        rw [hmore] at h
        rw [ih (s.resume state) _ r' hmore, ← hg']
        exact h

/-- The printable ASCII characters as one-byte tokens. -/
def asciiTokenizer : Tokenizer where
  idToToken id :=
    if Tokenizer.visible id then some (.ordinary [id]) else none

/-- Content stops at `lo`, which is not published. -/
def stopAtLo : StopPolicy :=
  ⟨[], [⟨[0x6c, 0x6f], .content, false⟩], false⟩

/-- `hello!` in two rounds: the stop string straddles them, and ends the
generation inside the second. -/
theorem feedRounds_partition_stop_string :
    feedRounds .outputLimit (.make asciiTokenizer stopAtLo false false false) 8
        [[0x68], [0x65], [0x6c], [0x6c], [0x6f], [0x21]]
      = .ok ⟨5, .stopString, [0x68, 0x65, 0x6c], [], 0⟩ :=
  feedRounds_partition .outputLimit [[0x68, 0x65, 0x6c, 0x6c], [0x6f, 0x21]]
    (.make asciiTokenizer stopAtLo false false false) 8 _ rfl

end Ginfer.Frontend
