/-
One turn of `preview`'s loop, in a round and in a round of its own.

A turn is the loop over one token, its end at the budget included. From
one decoder state it is compared over two outputs by the couplings of
Proofs/Follows.lean (`turn_follows`); the couplings are these:

- to an output that has room for the turn's channel, as to the empty one,
  text can always be appended: the turn there does what the turn in a
  round of its own does (`turn_room`);
- `probe` throws where any text at all is appended. A turn that it lets
  pass appends nothing, so it does the same over every output
  (`turn_untouched`); a turn that it stops throws over an output without
  room (`turn_overflows`).

A turn in a round of its own never lacks room (`turn_alone_ne_overflow`).
-/
import Ginfer.Muse.Proofs.Follows

namespace Ginfer.Muse

open Ginfer.Lib Ginfer.Frontend List

-- ============ the turn

/-- Two turns with the same end over related outputs; one that goes on
leaves its decoder open, and what it holds back in its place. -/
structure TurnRel (Rel : PublishedOutput → PublishedOutput → Prop)
    (st : DecoderState) (n₁ n₂ : Nat)
    (r₁ r₂ : DecoderState × PublishedOutput × OutputDecision) : Prop where
  state : r₁.1 = r₂.1
  output : Rel r₁.2.1 r₂.2.1
  accepted₁ : r₁.2.2.acceptedTokens = n₁ + 1
  accepted₂ : r₂.2.2.acceptedTokens = n₂ + 1
  reason : r₁.2.2.finishReason = r₂.2.2.finishReason
  goesOn : r₁.2.2.finishReason = .none → r₁.1.terminal = st.terminal ∧ Held r₁.1

/-- Two steps with the same end. -/
def StepRel (Rel : PublishedOutput → PublishedOutput → Prop)
    (c : OutputChannel) (st : DecoderState) : TokenStep → TokenStep → Prop
  | .next st₁ o₁, .next st₂ o₂ =>
    st₁ = st₂ ∧ Rel o₁ o₂ ∧ Left c st st₁
  | .finish st₁ o₁ r₁, .finish st₂ o₂ r₂ =>
    st₁ = st₂ ∧ Rel o₁ o₂ ∧ r₁ = r₂ ∧ r₁ ≠ .none
  | _, _ => False

@[simp] theorem countToken_stage (st : DecoderState) :
    (countToken st).stage = st.stage := by
  unfold countToken
  split
  · rfl
  · rfl

theorem countToken_held {st : DecoderState} (h : Held st) :
    Held (countToken st) := by
  unfold countToken
  split
  · exact h
  · exact h

theorem countToken_terminal (st : DecoderState) :
    (countToken st).terminal = st.terminal := by
  unfold countToken
  split
  · rfl
  · rfl

section

variable {limit : Exception} {A₁ A₂ : Append} {c : OutputChannel}
  {Rel : PublishedOutput → PublishedOutput → Prop} {n₁ n₂ : Nat}
  {o₁ o₂ : PublishedOutput} {st : DecoderState}

theorem finishOnStopToken_follows (s : SessionOptions)
    (h : Coupled limit A₁ A₂ c Rel) {st' : DecoderState}
    (hready : Ready c st') (hrel : Rel o₁ o₂) :
    Follows limit Own (StepRel Rel c st) (finishOnStopToken A₁ s n₁ st' o₁)
      (finishOnStopToken A₂ s n₂ st' o₂) := by
  unfold finishOnStopToken
  refine (terminalize_follows s.policy h n₁ n₂ hready hrel).bind ?_
  rintro ⟨d₁, e₁⟩ ⟨d₂, e₂⟩ ⟨hd, he⟩
  exact .ok ⟨hd, he, rfl, by decide⟩

/-- Related matches are found together. -/
theorem MatchRel.filter_cases {b₁ b₂ : Option StopMatch}
    (h : MatchRel Rel n₁ n₂ b₁ b₂) :
    (b₁.filter (·.found) = none ∧ b₂.filter (·.found) = none)
      ∨ ∃ m₁ m₂, b₁.filter (·.found) = some m₁
        ∧ b₂.filter (·.found) = some m₂ ∧ Rel m₁.output m₂.output := by
  match b₁, b₂, h with
  | none, none, _ => exact Or.inl ⟨rfl, rfl⟩
  | some m₁, some m₂, ⟨hfound, hrest⟩ =>
    cases hm : m₁.found with
    | false =>
      have hm₂ : m₂.found = false := hfound ▸ hm
      exact Or.inl ⟨by simp [hm], by simp [hm₂]⟩
    | true =>
      have hm₂ : m₂.found = true := hfound ▸ hm
      obtain ⟨-, -, -, -, houtput⟩ := hrest hm
      exact Or.inr ⟨m₁, m₂, by simp [hm], by simp [hm₂], houtput⟩

variable (s : SessionOptions) (h : Coupled limit A₁ A₂ c Rel) (token : TokenId)

include s h token

theorem feedToken_follows
    (hheld : Held st) (hc : st.stage.channel = c) (hrel : Rel o₁ o₂) :
    Follows limit Own (StepRel Rel c st) (feedToken A₁ s n₁ st o₁ token)
      (feedToken A₂ s n₂ st o₂ token) := by
  have hstart : FeedRel Rel n₁ n₂ ⟨st, o₁, some .empty⟩ ⟨st, o₂, some .empty⟩ :=
    ⟨rfl, hrel, rfl, fun hfound => absurd hfound (by decide)⟩
  unfold feedToken
  refine (Follows.refl fun _ => decodeTokenBytes_own).bind ?_
  rintro bytes _ rfl
  refine (feedProtocolToken_follows s.policy h token bytes hheld hc
    hstart).bind ?_
  rintro f₁ f₂ ⟨hf, hleft⟩
  rcases hf.best.filter_cases with ⟨hb₁, hb₂⟩ | ⟨m₁, m₂, hb₁, hb₂, hm⟩
  · rw [hb₁, hb₂]
    dsimp only
    split
    · rw [← hf.state]
      exact finishOnStopToken_follows s h hleft.ready hf.emitted
    · exact .ok ⟨hf.state, hf.emitted, hleft⟩
  · rw [hb₁, hb₂]
    exact .ok ⟨congrArg terminalState hf.state, hm, rfl, by decide⟩

theorem previewToken_follows
    (hheld : Held st) (hc : st.stage.channel = c) (hrel : Rel o₁ o₂) :
    Follows limit Own (StepRel Rel c st) (previewToken A₁ s n₁ st o₁ token)
      (previewToken A₂ s n₂ st o₂ token) := by
  have hc' : (countToken st).stage.channel = c := by
    rw [countToken_stage]
    exact hc
  unfold previewToken
  split
  · exact .error (by simp [Own, overflow])
  split
  · exact finishOnStopToken_follows s h (Or.inl hc') hrel
  · refine (feedToken_follows s h token (countToken_held hheld) hc' hrel).mono ?_
    intro x₁ x₂ hx
    cases x₁ <;> cases x₂
    · exact ⟨hx.1, hx.2.1, hx.2.2.terminal.trans (countToken_terminal st),
        hx.2.2.held, hx.2.2.ready⟩
    · exact hx
    · exact hx
    · exact hx

/-- The turn, with the end of the budget in the same place. -/
theorem turn_follows
    (n₁ n₂ b₁ b₂ : Nat) {reason : FinishReason} (hreason : reason ≠ .none)
    (hend : n₁ + 1 = b₁ ↔ n₂ + 1 = b₂) (hheld : Held st)
    (hc : st.stage.channel = c) (hrel : Rel o₁ o₂) :
    Follows limit Own (TurnRel Rel st n₁ n₂)
      (previewLoop A₁ s b₁ reason n₁ st o₁ [token])
      (previewLoop A₂ s b₂ reason n₂ st o₂ [token]) := by
  unfold previewLoop
  refine (previewToken_follows s h token hheld hc hrel).bind ?_
  intro x₁ x₂ hx
  cases x₁ with
  | finish st₁ e₁ r₁ =>
    cases x₂ with
    | next st₂ e₂ => exact hx.elim
    | finish st₂ e₂ r₂ =>
      obtain ⟨hst, he, hr, hnone⟩ := hx
      exact .ok ⟨hst, he, rfl, rfl, hr, fun hr' => absurd hr' hnone⟩
  | next st₁ e₁ =>
    cases x₂ with
    | finish st₂ e₂ r₂ => exact hx.elim
    | next st₂ e₂ =>
      obtain ⟨rfl, he, hleft⟩ := hx
      dsimp only
      unfold previewLoop
      by_cases hb : n₁ + 1 = b₁
      · rw [if_pos hb, if_pos (hend.mp hb)]
        refine (terminalize_follows s.policy h (n₁ + 1) (n₂ + 1)
          hleft.ready he).bind ?_
        rintro ⟨d₁, g₁⟩ ⟨d₂, g₂⟩ ⟨hd, hg⟩
        exact .ok ⟨hd, hg, rfl, rfl, rfl, fun hr => absurd hr hreason⟩
      · rw [if_neg hb, if_neg (fun hb₂ => hb (hend.mpr hb₂))]
        exact .ok ⟨rfl, he, rfl, rfl, rfl,
          fun _ => ⟨hleft.terminal, hleft.held⟩⟩

omit s h token

end

-- ============ the room

/-- The channels of an output's deltas. -/
def channels (output : PublishedOutput) : List OutputChannel :=
  output.map (·.channel)

/-- Text on a channel extends the last delta or needs another. -/
def addRun (runs : List OutputChannel) (c : OutputChannel) : List OutputChannel :=
  if runs.getLast? = some c then runs else runs ++ [c]

/-- The text of a channel can be appended after these. -/
def hasRoom (runs : List OutputChannel) (c : OutputChannel) : Bool :=
  decide (runs.length ≠ 2) || runs.getLast? == some c

theorem getLast?_addRun (runs : List OutputChannel) (c : OutputChannel) :
    (addRun runs c).getLast? = some c := by
  unfold addRun
  split
  · assumption
  · exact getLast?_concat

theorem addRun_addRun (runs : List OutputChannel) (c : OutputChannel) :
    addRun (addRun runs c) c = addRun runs c := by
  rw [addRun, if_pos (getLast?_addRun runs c)]

theorem hasRoom_addRun (runs : List OutputChannel) (c : OutputChannel) :
    hasRoom (addRun runs c) c = true := by
  unfold hasRoom
  rw [getLast?_addRun]
  simp

theorem textOn_append (ch : OutputChannel) (o o' : PublishedOutput) :
    textOn ch (o ++ o') = textOn ch o ++ textOn ch o' := by
  simp [textOn]

theorem textOn_singleton (ch c : OutputChannel) (t : Bytes) :
    textOn ch [⟨c, t⟩] = if ch = c then t else [] := by
  by_cases h : ch = c
  · simp [textOn, h]
  · have h' : c ≠ ch := fun hc => h hc.symm
    simp [textOn, h, h']

/-- Where there is room, text is appended. -/
theorem appendDelta_room {o : PublishedOutput} {c : OutputChannel}
    (h : hasRoom (channels o) c = true) {t : Bytes} (ht : t ≠ []) :
    ∃ o', appendDelta o c t = .ok o' ∧ channels o' = addRun (channels o) c
      ∧ ∀ ch, textOn ch o' = textOn ch o ++ if ch = c then t else [] := by
  have hempty : t.isEmpty = false := by
    cases t with
    | nil => exact absurd rfl ht
    | cons b rest => rfl
  unfold appendDelta
  rw [hempty, if_neg (by decide)]
  rcases eq_nil_or_concat o with rfl | ⟨front, ⟨c', t'⟩, rfl⟩
  · refine ⟨[⟨c, t⟩], rfl, rfl, fun ch => ?_⟩
    rw [textOn_singleton]
    rfl
  · rw [concat_eq_append] at h ⊢
    rw [getLast?_concat]
    dsimp only
    by_cases hc : c' = c
    · subst hc
      rw [if_pos rfl]
      refine ⟨_, rfl, ?_, fun ch => ?_⟩
      · unfold addRun channels
        simp
      · rw [dropLast_concat, textOn_append, textOn_append,
          textOn_singleton, textOn_singleton, append_assoc]
        by_cases hch : ch = c'
        · simp [hch]
        · simp [hch]
    · rw [if_neg hc]
      have hlen : (front ++ [⟨c', t'⟩] : PublishedOutput).length ≠ 2 := by
        unfold hasRoom channels at h
        simpa [hc] using h
      unfold pushBack
      rw [if_neg hlen]
      refine ⟨_, rfl, ?_, fun ch => ?_⟩
      · unfold addRun channels
        simp [hc]
      · rw [textOn_append, textOn_singleton]

/-- Where there is none, it throws. -/
theorem appendDelta_full {o : PublishedOutput} {c : OutputChannel}
    (h : hasRoom (channels o) c = false) {t : Bytes} (ht : t ≠ []) :
    appendDelta o c t = .error overflow := by
  obtain ⟨hlen, hlast⟩ : o.length = 2
      ∧ ¬ o.getLast?.map (·.channel) = some c := by
    unfold hasRoom channels at h
    simpa using h
  have hempty : t.isEmpty = false := by
    cases t with
    | nil => exact absurd rfl ht
    | cons b rest => rfl
  unfold appendDelta
  rw [hempty, if_neg (by decide)]
  cases hback : o.getLast? with
  | none =>
    rw [getLast?_eq_none_iff] at hback
    rw [hback] at hlen
    cases hlen
  | some back =>
    rw [hback] at hlast
    dsimp only
    rw [if_neg (fun hc => hlast (congrArg some hc))]
    unfold pushBack
    rw [if_pos hlen]
    rfl

theorem appendDelta_nil (o : PublishedOutput) (c : OutputChannel) :
    appendDelta o c [] = .ok o := rfl

-- ============ the couplings

/-- An append that throws on any text. -/
def probe : Append := fun output _ text =>
  if text.isEmpty then .ok output else .error overflow

/-- Text that was put after `o` in one output is all there is in the
other: nothing, or text on the channel. -/
structure Joined (c : OutputChannel) (o o₁ o₂ : PublishedOutput) : Prop where
  text : ∀ ch, textOn ch o₁ = textOn ch o ++ textOn ch o₂
  runs : o₂ = [] ∧ channels o₁ = channels o
    ∨ channels o₂ = [c] ∧ channels o₁ = addRun (channels o) c

theorem Joined.nil (c : OutputChannel) (o : PublishedOutput) :
    Joined c o o [] := ⟨fun _ => (append_nil _).symm, Or.inl ⟨rfl, rfl⟩⟩

/-- Joined, with room for more. -/
def JoinedRoom (c : OutputChannel) (o o₁ o₂ : PublishedOutput) : Prop :=
  Joined c o o₁ o₂ ∧ hasRoom (channels o₁) c = true ∧ hasRoom (channels o₂) c = true

theorem coupled_room (limit : Exception) (c : OutputChannel)
    (o : PublishedOutput) :
    Coupled limit appendDelta appendDelta c (JoinedRoom c o) := by
  refine ⟨appendDelta_nil, appendDelta_nil, ?_⟩
  rintro o₁ o₂ t ⟨hjoined, hroom₁, hroom₂⟩ ht
  obtain ⟨e₁, h₁, hruns₁, htext₁⟩ := appendDelta_room hroom₁ ht
  obtain ⟨e₂, h₂, hruns₂, htext₂⟩ := appendDelta_room hroom₂ ht
  rw [h₁, h₂]
  refine .ok ⟨⟨fun ch => ?_, Or.inr ⟨?_, ?_⟩⟩, ?_, ?_⟩
  · rw [htext₁, htext₂, hjoined.text, append_assoc]
  · rcases hjoined.runs with ⟨rfl, -⟩ | ⟨hone, -⟩
    · exact hruns₂
    · rw [hruns₂, hone]
      exact if_pos rfl
  · rcases hjoined.runs with ⟨-, hruns⟩ | ⟨-, hruns⟩
    · rw [hruns₁, hruns]
    · rw [hruns₁, hruns, addRun_addRun]
  · rw [hruns₁]
    exact hasRoom_addRun _ c
  · rw [hruns₂]
    exact hasRoom_addRun _ c

/-- Nothing is appended that the probe lets pass. -/
theorem coupled_probe (c : OutputChannel) (o : PublishedOutput) :
    Coupled overflow appendDelta probe c (fun o₁ _ => o₁ = o) := by
  refine ⟨appendDelta_nil, fun _ _ => rfl, ?_⟩
  intro o₁ o₂ t _ ht
  unfold probe
  rw [if_neg (by simpa using ht)]
  exact Or.inl rfl

/-- What the probe stops throws where there is no room. -/
theorem coupled_full {c : OutputChannel} {o : PublishedOutput}
    (h : hasRoom (channels o) c = false) :
    Coupled overflow probe appendDelta c (fun _ o₂ => o₂ = o) := by
  refine ⟨fun _ _ => rfl, appendDelta_nil, ?_⟩
  rintro o₁ _ t rfl ht
  rw [appendDelta_full h ht]
  exact Or.inl rfl

-- ============ what a turn does

/-- The turn of a token in a round of its own. -/
def turnAlone (append : Append) (s : SessionOptions) (reason : FinishReason)
    (budget : Nat) (st : DecoderState) (token : TokenId) :
    Except Exception (DecoderState × PublishedOutput × OutputDecision) :=
  previewLoop append s budget reason 0 st [] [token]

/-- The turn appends text, to its output or to that of a match. -/
def touches (s : SessionOptions) (reason : FinishReason) (budget : Nat)
    (st : DecoderState) (token : TokenId) : Bool :=
  match turnAlone probe s reason budget st token with
  | .error e => decide (e = overflow)
  | .ok _ => false

section

variable {s : SessionOptions} {reason : FinishReason} {b n : Nat}
  {st : DecoderState} {o : PublishedOutput} {token : TokenId}

theorem touches_iff : touches s reason b st token = true
    ↔ turnAlone probe s reason b st token = .error overflow := by
  unfold touches
  cases turnAlone probe s reason b st token with
  | ok r => simp
  | error e => simp

variable (hreason : reason ≠ .none) (hn : n < b) (hheld : Held st)

include hreason hn hheld

/-- A turn of a round that has room for it does what it does alone. -/
theorem turn_room (hroom : hasRoom (channels o) st.stage.channel = true) :
    Agrees (TurnRel (Joined st.stage.channel o) st n 0)
      (previewLoop appendDelta s b reason n st o [token])
      (turnAlone appendDelta s reason (b - n) st token) := by
  have hall : ∀ limit, Follows limit Own
      (TurnRel (Joined st.stage.channel o) st n 0)
      (previewLoop appendDelta s b reason n st o [token])
      (turnAlone appendDelta s reason (b - n) st token) := by
    intro limit
    refine (turn_follows s (coupled_room limit st.stage.channel o) token
      n 0 b (b - n) hreason (by omega) hheld rfl ⟨.nil _ o, hroom, rfl⟩).mono ?_
    intro r₁ r₂ h
    exact ⟨h.state, h.output.1, h.accepted₁, h.accepted₂, h.reason, h.goesOn⟩
  exact (hall overflow).agrees (hall .badAlloc) (by simp [overflow])

/-- A turn that appends nothing does what it does alone. -/
theorem turn_untouched (h : touches s reason (b - n) st token = false) :
    Agrees (fun r₁ r₂ => TurnRel (Joined st.stage.channel o) st n 0 r₁ r₂
        ∧ r₁.2.1 = o)
      (previewLoop appendDelta s b reason n st o [token])
      (turnAlone appendDelta s reason (b - n) st token) := by
  have hne : turnAlone probe s reason (b - n) st token ≠ .error overflow := by
    intro hprobe
    rw [touches_iff.mpr hprobe] at h
    cases h
  have hround := (turn_follows s (coupled_probe st.stage.channel o) token
    n 0 b (b - n) hreason (by omega) hheld rfl rfl).agrees_of_ne hne
  have halone := (turn_follows s (coupled_probe st.stage.channel []) token
    0 0 (b - n) (b - n) hreason Iff.rfl hheld rfl rfl).agrees_of_ne hne
  refine hround.join halone ?_
  intro r₁ r r₂ h₁ h₂
  refine ⟨⟨h₁.state.trans h₂.state.symm, ?_, h₁.accepted₁, h₂.accepted₁,
    h₁.reason.trans h₂.reason.symm, h₁.goesOn⟩, h₁.output⟩
  rw [h₁.output, h₂.output]
  exact .nil _ o

/-- A turn that appends text to an output without room for it throws. -/
theorem turn_overflows (h : touches s reason (b - n) st token = true)
    (hfull : hasRoom (channels o) st.stage.channel = false) :
    previewLoop appendDelta s b reason n st o [token]
      = .error overflow := by
  have hprobe := touches_iff.mp h
  have hfollows : Follows overflow Own _
      (turnAlone probe s reason (b - n) st token)
      (previewLoop appendDelta s b reason n st o [token]) :=
    turn_follows s (coupled_full hfull) token 0 n (b - n) b hreason
      (by omega) hheld rfl rfl
  rw [hprobe] at hfollows
  cases hturn : previewLoop appendDelta s b reason n st o [token] with
  | ok r =>
    rw [hturn] at hfollows
    obtain ⟨a, ha, -⟩ := hfollows
    cases ha
  | error e =>
    rw [hturn] at hfollows
    rcases hfollows with rfl | ⟨he, -⟩
    · rfl
    · cases he
      rfl

omit hreason hn hheld

/-- A turn of its own has room. -/
theorem turnAlone_ne_overflow (hreason : reason ≠ .none) (hheld : Held st) :
    turnAlone appendDelta s reason b st token ≠ .error overflow := by
  intro hturn
  have hfollows := turn_follows s
    (coupled_room .badAlloc st.stage.channel []) token 0 0 b b hreason
    Iff.rfl hheld rfl ⟨.nil _ [], rfl, rfl⟩
  unfold turnAlone at hturn
  rw [hturn] at hfollows
  rcases hfollows with he | ⟨-, hown⟩
  · simp [overflow] at he
  · exact hown rfl

end

end Ginfer.Muse
