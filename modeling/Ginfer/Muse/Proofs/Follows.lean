/-
The decoder does not read what it has emitted.

The decoder is run twice from one state, over two outputs and two ways to
append to them, `A₁` and `A₂`. While a token is decoded every text goes to
one channel `c`, the channel of the stage it began in; so if the two ways
to append follow each other on `c` (`Coupled`), the two decoders do
(`feedProtocolToken_follows`, `terminalize_follows`): the same state, the
same matches, related outputs.

That it is one channel is an invariant of the state, `Held`: what is held
back for a stop string is on the channel of the open body, and closing a
message publishes it. A token that closes or opens a message leaves
nothing that a `terminalize` after it could put on another channel
(`Ready`).
-/
import Ginfer.Lib.Follows
import Ginfer.Muse.OutputSession

namespace Ginfer.Muse

open Ginfer.Lib Ginfer.Frontend

-- ============ the exceptions

/-- The exception of an output that has no room. -/
def overflow : Exception :=
  .logicError "output decoder produced more than two channel transitions"

/-- The decoder's own exceptions: every other. -/
def Own (e : Exception) : Prop := e ≠ overflow

theorem utf8Character_own {bytes : Bytes} {e : Exception}
    (h : utf8Character bytes = .error e) : Own e := by
  unfold utf8Character at h
  grind [Own, overflow]

theorem utf8Scan_own : ∀ (fuel : Nat) (bytes : Bytes) (offset : Nat)
    (e : Exception), utf8Scan fuel bytes offset = .error e → Own e := by
  intro fuel
  induction fuel with
  | zero =>
    intro bytes offset e h
    cases h
  | succ fuel ih =>
    intro bytes offset e h
    unfold utf8Scan at h
    split at h
    · next hc =>
      cases h
      exact utf8Character_own hc
    · cases h
    · exact ih _ _ e h

theorem decodeSymbols_own (id : TokenId) : ∀ (codepoints : List Nat)
    (e : Exception), Tokenizer.decodeSymbols id codepoints = .error e →
    Own e := by
  intro codepoints
  induction codepoints with
  | nil =>
    intro e h
    cases h
  | cons cp rest ih =>
    intro e h
    unfold Tokenizer.decodeSymbols at h
    split at h
    · cases h
      unfold Own overflow
      simp
    · cases hrest : Tokenizer.decodeSymbols id rest with
      | error e' =>
        rw [hrest] at h
        cases h
        exact ih e hrest
      | ok bytes =>
        rw [hrest] at h
        cases h

theorem decodeTokenBytes_own {t : Tokenizer} {id : TokenId} {skip : Bool}
    {e : Exception} (h : t.decodeTokenBytes id skip = .error e) :
    Own e := by
  unfold Tokenizer.decodeTokenBytes at h
  split at h
  · cases h
  split at h
  · cases h
    unfold Own overflow
    simp
  split at h
  · cases h
    unfold Own overflow
    simp
  · cases h
  · exact decodeSymbols_own id _ e h

-- ============ the coupling

/-- Two ways to append that follow each other on a channel. -/
structure Coupled (limit : Exception) (A₁ A₂ : Append) (c : OutputChannel)
    (Rel : PublishedOutput → PublishedOutput → Prop) : Prop where
  nil₁ : ∀ o ch, A₁ o ch [] = .ok o
  nil₂ : ∀ o ch, A₂ o ch [] = .ok o
  step : ∀ o₁ o₂ t, Rel o₁ o₂ → t ≠ [] →
    Follows limit Own Rel (A₁ o₁ c t) (A₂ o₂ c t)

/-- Two best matches found at the same place, with related outputs. -/
def MatchRel (Rel : PublishedOutput → PublishedOutput → Prop)
    (n₁ n₂ : Nat) : Option StopMatch → Option StopMatch → Prop
  | none, none => True
  | some m₁, some m₂ =>
    m₁.found = m₂.found
      ∧ (m₁.found = true →
          m₁.committedTokens = n₁ ∧ m₂.committedTokens = n₂
            ∧ m₁.byteCut = m₂.byteCut
            ∧ m₁.declarationOrder = m₂.declarationOrder
            ∧ Rel m₁.output m₂.output)
  | _, _ => False

/-- Two feeds with one state and related outputs. -/
structure FeedRel (Rel : PublishedOutput → PublishedOutput → Prop)
    (n₁ n₂ : Nat) (f₁ f₂ : Feed) : Prop where
  state : f₁.state = f₂.state
  emitted : Rel f₁.emitted f₂.emitted
  best : MatchRel Rel n₁ n₂ f₁.best f₂.best

/-- What feeding a channel leaves as it was. -/
structure Frame (c : OutputChannel) (st st' : DecoderState) : Prop where
  stage : st'.stage = st.stage
  utf8 : st'.utf8Pending = st.utf8Pending
  header : st'.headerPending = st.headerPending
  terminal : st'.terminal = st.terminal
  reasoningTokens : st'.reasoningTokens = st.reasoningTokens
  others : ∀ ch, ch ≠ c → st'.stopPending ch = st.stopPending ch

theorem Frame.refl (c : OutputChannel) (st : DecoderState) :
    Frame c st st := ⟨rfl, rfl, rfl, rfl, rfl, fun _ _ => rfl⟩

section

variable {limit : Exception} {A₁ A₂ : Append} {c : OutputChannel}
  {Rel : PublishedOutput → PublishedOutput → Prop} {n₁ n₂ : Nat}
  {o₁ o₂ : PublishedOutput} {f₁ f₂ : Feed}

theorem Coupled.append (h : Coupled limit A₁ A₂ c Rel)
    (hrel : Rel o₁ o₂) (t : Bytes) :
    Follows limit Own Rel (A₁ o₁ c t) (A₂ o₂ c t) := by
  cases t with
  | nil =>
    rw [h.nil₁, h.nil₂]
    exact .ok hrel
  | cons b rest => exact h.step o₁ o₂ _ hrel (List.cons_ne_nil b rest)

theorem stopCandidate_follows (h : Coupled limit A₁ A₂ c Rel)
    (hrel : Rel o₁ o₂) (before : Bytes) (stop : StopString) :
    Follows limit Own Rel (stopCandidate A₁ o₁ c before stop)
      (stopCandidate A₂ o₂ c before stop) := by
  unfold stopCandidate
  refine (h.append hrel before).bind fun d₁ d₂ hd => ?_
  split
  · exact h.append hd stop.text
  · exact .ok hd

/-- Related matches agree on whether a new one precedes them. -/
theorem stopMatchPrecedes_rel {m₁ m₂ : StopMatch}
    (h : MatchRel Rel n₁ n₂ (some m₁) (some m₂)) (cut order : Nat) :
    stopMatchPrecedes n₁ cut order m₁ = stopMatchPrecedes n₂ cut order m₂ := by
  obtain ⟨hfound, hrest⟩ := h
  unfold stopMatchPrecedes
  rw [← hfound]
  cases hf : m₁.found with
  | false => rfl
  | true =>
    obtain ⟨hn₁, hn₂, hcut, horder, -⟩ := hrest hf
    rw [hn₁, hn₂, hcut, horder]
    simp

theorem searchStops_follows (h : Coupled limit A₁ A₂ c Rel)
    (hrel : Rel o₁ o₂) (combined : Bytes) (start : Nat) :
    ∀ (strings : List StopString) (order : Nat) (m₁ m₂ : StopMatch),
      MatchRel Rel n₁ n₂ (some m₁) (some m₂) →
      Follows limit Own (fun m₁' m₂' => MatchRel Rel n₁ n₂ (some m₁') (some m₂'))
        (searchStops A₁ n₁ c combined start o₁ order strings m₁)
        (searchStops A₂ n₂ c combined start o₂ order strings m₂) := by
  intro strings
  induction strings with
  | nil =>
    intro order m₁ m₂ hm
    exact .ok hm
  | cons stop rest ih =>
    intro order m₁ m₂ hm
    unfold searchStops
    split
    · exact ih (order + 1) m₁ m₂ hm
    split
    · exact ih (order + 1) m₁ m₂ hm
    next found _ =>
    rw [stopMatchPrecedes_rel hm (start + found) order]
    split
    · exact ih (order + 1) m₁ m₂ hm
    · refine (stopCandidate_follows h hrel _ stop).bind fun d₁ d₂ hd => ?_
      exact ih (order + 1) _ _ ⟨rfl, fun _ => ⟨rfl, rfl, rfl, rfl, hd⟩⟩

theorem searchBest_follows (policy : StopPolicy)
    (h : Coupled limit A₁ A₂ c Rel) (hrel : Rel o₁ o₂) (combined : Bytes)
    (start : Nat) {b₁ b₂ : Option StopMatch} (hb : MatchRel Rel n₁ n₂ b₁ b₂) :
    Follows limit Own (MatchRel Rel n₁ n₂)
      (searchBest A₁ policy n₁ c combined start o₁ b₁)
      (searchBest A₂ policy n₂ c combined start o₂ b₂) := by
  match b₁, b₂, hb with
  | none, none, _ => exact .ok trivial
  | some m₁, some m₂, hb =>
    refine (searchStops_follows h hrel combined start policy.strings 0 m₁
      m₂ hb).bind fun m₁' m₂' hm => ?_
    exact .ok hm

/-- `feed_channel` on the channel. -/
theorem feedChannel_follows (policy : StopPolicy)
    (h : Coupled limit A₁ A₂ c Rel) (text : Bytes)
    (hf : FeedRel Rel n₁ n₂ f₁ f₂) :
    Follows limit Own
      (fun f₁' f₂' => FeedRel Rel n₁ n₂ f₁' f₂' ∧ Frame c f₁.state f₁'.state)
      (feedChannel A₁ policy n₁ c text f₁)
      (feedChannel A₂ policy n₂ c text f₂) := by
  unfold feedChannel
  split
  · exact .ok ⟨hf, .refl c _⟩
  rw [← hf.state]
  refine (searchBest_follows policy h hf.emitted _ _ hf.best).bind
    fun b₁ b₂ hb => ?_
  refine (h.append hf.emitted _).bind fun e₁ e₂ he => ?_
  refine .ok ⟨⟨rfl, he, hb⟩, rfl, rfl, rfl, rfl, rfl, ?_⟩
  intro ch hch
  exact Function.update_of_ne hch _ _

/-- `close_channel` on the channel, or on one that holds nothing. -/
theorem closeChannel_follows (h : Coupled limit A₁ A₂ c Rel) {ch : OutputChannel}
    (hch : ch = c ∨ f₁.state.stopPending ch = [])
    (hf : FeedRel Rel n₁ n₂ f₁ f₂) :
    Follows limit Own
      (fun f₁' f₂' => FeedRel Rel n₁ n₂ f₁' f₂'
        ∧ Frame ch f₁.state f₁'.state ∧ f₁'.state.stopPending ch = [])
      (closeChannel A₁ ch f₁) (closeChannel A₂ ch f₂) := by
  have happend : Follows limit Own Rel
      (A₁ f₁.emitted ch (f₁.state.stopPending ch))
      (A₂ f₂.emitted ch (f₁.state.stopPending ch)) := by
    rcases hch with rfl | hnil
    · exact h.append hf.emitted _
    · rw [hnil, h.nil₁, h.nil₂]
      exact .ok hf.emitted
  unfold closeChannel
  rw [← hf.state]
  refine happend.bind fun e₁ e₂ he => ?_
  refine .ok ⟨⟨rfl, he, hf.best⟩, ⟨rfl, rfl, rfl, rfl, rfl, ?_⟩, ?_⟩
  · intro ch' hne
    exact Function.update_of_ne hne _ _
  · exact Function.update_self _ _ _

end

-- ============ the protocol

/-- What is held back is on the channel of the open body. -/
def Held (st : DecoderState) : Prop :=
  ∀ ch, st.stopPending ch ≠ [] → st.stage.isBody = true ∧ ch = st.stage.channel

/-- What is still to be published goes to the channel, or there is
nothing. -/
def Ready (c : OutputChannel) (st : DecoderState) : Prop :=
  st.stage.channel = c
    ∨ st.utf8Pending = [] ∧ st.headerPending = []
      ∧ st.stopPending st.stage.channel = []

/-- A state in which decoding text stays in its stage. -/
structure Stays (st st' : DecoderState) : Prop where
  stage : st'.stage = st.stage
  utf8 : st'.utf8Pending = st.utf8Pending
  terminal : st'.terminal = st.terminal
  held : Held st → Held st'

theorem header_of_not_body {stage : AtemStage} :
    stage = .header ∨ stage = .betweenMessages ↔ stage.isBody = false := by
  cases stage <;> simp [AtemStage.isBody]

/-- Feeding the channel of the open body holds back on it alone. -/
theorem Frame.stays {c : OutputChannel} {st st' : DecoderState}
    (h : Frame c st st') (hbody : st.stage.isBody = true)
    (hc : st.stage.channel = c) : Stays st st' := by
  refine ⟨h.stage, h.utf8, h.terminal, fun hheld ch hne => ?_⟩
  rw [h.stage, hc]
  refine ⟨hbody, ?_⟩
  by_contra hother
  rw [h.others ch hother] at hne
  exact hother ((hheld ch hne).2.trans hc)

theorem Held.nil {st : DecoderState} (h : Held st)
    (hbody : st.stage.isBody = false) (ch : OutputChannel) :
    st.stopPending ch = [] := by
  by_contra hne
  rw [(h ch hne).1] at hbody
  cases hbody

section

variable {limit : Exception} {A₁ A₂ : Append} {c : OutputChannel}
  {Rel : PublishedOutput → PublishedOutput → Prop} {n₁ n₂ : Nat}
  {f₁ f₂ : Feed}

/-- Feeds that are related are of one state. -/
theorem FeedRel.cases (h : FeedRel Rel n₁ n₂ f₁ f₂) :
    ∃ st e₁ e₂ b₁ b₂, f₁ = ⟨st, e₁, b₁⟩ ∧ f₂ = ⟨st, e₂, b₂⟩
      ∧ Rel e₁ e₂ ∧ MatchRel Rel n₁ n₂ b₁ b₂ := by
  obtain ⟨st, e₁, b₁⟩ := f₁
  obtain ⟨st₂, e₂, b₂⟩ := f₂
  obtain rfl : st = st₂ := h.state
  exact ⟨st, e₁, e₂, b₁, b₂, rfl, rfl, h.emitted, h.best⟩

theorem feedDecodedText_follows (policy : StopPolicy)
    (h : Coupled limit A₁ A₂ c Rel) (text : Bytes)
    (hc : f₁.state.stage.channel = c) (hf : FeedRel Rel n₁ n₂ f₁ f₂) :
    Follows limit Own
      (fun f₁' f₂' => FeedRel Rel n₁ n₂ f₁' f₂' ∧ Stays f₁.state f₁'.state)
      (feedDecodedText A₁ policy n₁ text f₁)
      (feedDecodedText A₂ policy n₂ text f₂) := by
  obtain ⟨st, e₁, e₂, b₁, b₂, rfl, rfl, he, hb⟩ := hf.cases
  unfold feedDecodedText
  dsimp only at hc ⊢
  split
  · exact .ok ⟨⟨rfl, he, hb⟩, rfl, rfl, rfl, fun hheld => hheld⟩
  · next hbody =>
    have hbody' : st.stage.isBody = true := by
      rw [header_of_not_body] at hbody
      simpa using hbody
    rw [hc]
    exact (feedChannel_follows policy h text hf).mono
      fun f₁' f₂' hfed => ⟨hfed.1, hfed.2.stays hbody' hc⟩

theorem withoutMatch_follows {feed₁ feed₂ : Feed → Except Exception Feed}
    {P : DecoderState → Prop} (hf : FeedRel Rel n₁ n₂ f₁ f₂)
    (h : Follows limit Own
      (fun f₁' f₂' => FeedRel Rel n₁ n₂ f₁' f₂' ∧ P f₁'.state)
      (feed₁ { f₁ with best := none }) (feed₂ { f₂ with best := none })) :
    Follows limit Own (fun f₁' f₂' => FeedRel Rel n₁ n₂ f₁' f₂' ∧ P f₁'.state)
      (withoutMatch feed₁ f₁) (withoutMatch feed₂ f₂) := by
  unfold withoutMatch
  refine h.bind fun f₁' f₂' hfed => ?_
  exact .ok ⟨⟨hfed.1.state, hfed.1.emitted, hf.best⟩, hfed.2⟩

/-- After a flush no bytes wait. -/
structure Flushed (st st' : DecoderState) : Prop where
  stage : st'.stage = st.stage
  utf8 : st'.utf8Pending = []
  terminal : st'.terminal = st.terminal
  held : Held st → Held st'

theorem flushIncompleteUtf8_follows (policy : StopPolicy)
    (h : Coupled limit A₁ A₂ c Rel) (hc : f₁.state.stage.channel = c)
    (hf : FeedRel Rel n₁ n₂ f₁ f₂) :
    Follows limit Own
      (fun f₁' f₂' => FeedRel Rel n₁ n₂ f₁' f₂' ∧ Flushed f₁.state f₁'.state)
      (flushIncompleteUtf8 A₁ policy n₁ f₁)
      (flushIncompleteUtf8 A₂ policy n₂ f₂) := by
  obtain ⟨st, e₁, e₂, b₁, b₂, rfl, rfl, he, hb⟩ := hf.cases
  unfold flushIncompleteUtf8
  dsimp only at hc ⊢
  split
  · next hempty =>
    exact .ok ⟨hf, rfl, List.isEmpty_iff.mp hempty, rfl, fun hh => hh⟩
  · have hstart : FeedRel Rel n₁ n₂ ⟨{ st with utf8Pending := [] }, e₁, b₁⟩
        ⟨{ st with utf8Pending := [] }, e₂, b₂⟩ := ⟨rfl, he, hb⟩
    have hfed : FeedRel Rel n₁ n₂ ⟨{ st with utf8Pending := [] }, e₁, none⟩
        ⟨{ st with utf8Pending := [] }, e₂, none⟩ := ⟨rfl, he, trivial⟩
    refine withoutMatch_follows hstart
      ((feedDecodedText_follows policy h replacementCharacter hc hfed).mono ?_)
    rintro f₁' f₂' ⟨hrel, hstays⟩
    exact ⟨hrel, hstays.stage, hstays.utf8, hstays.terminal, hstays.held⟩

/-- What a protocol token leaves. -/
structure Left (c : OutputChannel) (st st' : DecoderState) : Prop where
  terminal : st'.terminal = st.terminal
  held : Held st'
  ready : Ready c st'

variable (policy : StopPolicy) (h : Coupled limit A₁ A₂ c Rel)

include policy h

theorem feedTokenBytes_follows (bytes : Bytes)
    (hheld : Held f₁.state) (hc : f₁.state.stage.channel = c)
    (hf : FeedRel Rel n₁ n₂ f₁ f₂) :
    Follows limit Own
      (fun f₁' f₂' => FeedRel Rel n₁ n₂ f₁' f₂' ∧ Left c f₁.state f₁'.state)
      (feedTokenBytes A₁ policy n₁ bytes f₁)
      (feedTokenBytes A₂ policy n₂ bytes f₂) := by
  obtain ⟨st, e₁, e₂, b₁, b₂, rfl, rfl, he, hb⟩ := hf.cases
  unfold feedTokenBytes
  dsimp only at hc hheld ⊢
  refine (Follows.refl (utf8Scan_own _ _ 0)).bind ?_
  rintro valid _ rfl
  split
  · exact .ok ⟨⟨rfl, he, hb⟩, rfl, hheld, Or.inl hc⟩
  · have hfed : FeedRel Rel n₁ n₂
        ⟨{ st with utf8Pending := (st.utf8Pending ++ bytes).drop valid }, e₁, b₁⟩
        ⟨{ st with utf8Pending := (st.utf8Pending ++ bytes).drop valid },
          e₂, b₂⟩ := ⟨rfl, he, hb⟩
    refine (feedDecodedText_follows policy h _ hc hfed).mono ?_
    rintro f₁' f₂' ⟨hrel, hstays⟩
    refine ⟨hrel, hstays.terminal, hstays.held hheld, Or.inl ?_⟩
    rw [hstays.stage]
    exact hc

theorem closeAtemMessage_follows (stage : AtemStage) (hheld : Held f₁.state)
    (hc : f₁.state.stage.channel = c) (hf : FeedRel Rel n₁ n₂ f₁ f₂) :
    Follows limit Own
      (fun f₁' f₂' => FeedRel Rel n₁ n₂ f₁' f₂' ∧ Left c f₁.state f₁'.state)
      (closeAtemMessage A₁ policy n₁ stage f₁)
      (closeAtemMessage A₂ policy n₂ stage f₂) := by
  unfold closeAtemMessage
  refine (flushIncompleteUtf8_follows policy h hc hf).bind ?_
  rintro d₁ d₂ ⟨hd, hflushed⟩
  have hdheld := hflushed.held hheld
  have hclose : Follows limit Own
      (fun f₁' f₂' => FeedRel Rel n₁ n₂ f₁' f₂'
        ∧ (∀ ch, f₁'.state.stopPending ch = [])
        ∧ f₁'.state.utf8Pending = []
        ∧ f₁'.state.terminal = f₁.state.terminal)
      (closeBody A₁ d₁) (closeBody A₂ d₂) := by
    unfold closeBody
    rw [← hd.state]
    split
    · next hbody =>
      have hdc : d₁.state.stage.channel = c := by
        rw [hflushed.stage]
        exact hc
      refine (closeChannel_follows h (Or.inl hdc) hd).mono ?_
      rintro e₁ e₂ ⟨he, hframe, hnil⟩
      refine ⟨he, ?_, hframe.utf8.trans hflushed.utf8,
        hframe.terminal.trans hflushed.terminal⟩
      intro ch
      by_cases hch : ch = d₁.state.stage.channel
      · rw [hch]
        exact hnil
      · rw [hframe.others ch hch]
        by_contra hne
        exact hch (hdheld ch hne).2
    · next hbody =>
      exact .ok ⟨hd, hdheld.nil (by simpa using hbody), hflushed.utf8,
        hflushed.terminal⟩
  refine hclose.bind ?_
  rintro e₁ e₂ ⟨he, hnil, hutf8, hterminal⟩
  obtain ⟨st, e₁, e₂, b₁, b₂, rfl, rfl, hrel, hb⟩ := he.cases
  refine .ok ⟨⟨rfl, hrel, hb⟩, hterminal, ?_, Or.inr ⟨hutf8, rfl, hnil _⟩⟩
  intro ch hne
  exact absurd (hnil ch) hne

theorem openAtemMessage_follows
    (hstage : f₁.state.stage.isBody = false) (hheld : Held f₁.state)
    (hc : f₁.state.stage.channel = c) (hf : FeedRel Rel n₁ n₂ f₁ f₂) :
    Follows limit Own
      (fun f₁' f₂' => FeedRel Rel n₁ n₂ f₁' f₂' ∧ Left c f₁.state f₁'.state)
      (openAtemMessage A₁ policy n₁ f₁)
      (openAtemMessage A₂ policy n₂ f₂) := by
  have hcontent : c = .content := by
    rw [← hc]
    revert hstage
    cases f₁.state.stage <;> simp [AtemStage.isBody, AtemStage.channel]
  unfold openAtemMessage
  refine (flushIncompleteUtf8_follows policy h hc hf).bind ?_
  rintro d₁ d₂ ⟨hd, hflushed⟩
  have hnil : ∀ ch, d₁.state.stopPending ch = [] :=
    (hflushed.held hheld).nil (by rw [hflushed.stage]; exact hstage)
  obtain ⟨st, e₁, e₂, b₁, b₂, rfl, rfl, he, hb⟩ := hd.cases
  dsimp only at hnil
  unfold openBody
  dsimp only
  split
  · refine .ok ⟨⟨rfl, he, hb⟩, hflushed.terminal, ?_,
      Or.inr ⟨hflushed.utf8, rfl, hnil _⟩⟩
    intro ch hne
    exact absurd (hnil ch) hne
  · subst hcontent
    have hopened : FeedRel Rel n₁ n₂
        ⟨{ st with headerPending := [], stage := .content }, e₁, b₁⟩
        ⟨{ st with headerPending := [], stage := .content }, e₂, b₂⟩ :=
      ⟨rfl, he, hb⟩
    have hfed : FeedRel Rel n₁ n₂
        ⟨{ st with headerPending := [], stage := .content }, e₁, none⟩
        ⟨{ st with headerPending := [], stage := .content }, e₂, none⟩ :=
      ⟨rfl, he, trivial⟩
    refine withoutMatch_follows hopened
      ((feedChannel_follows policy h (trimAscii st.headerPending) hfed).mono ?_)
    rintro d₁ d₂ ⟨hrel, hframe⟩
    have hstays := hframe.stays rfl rfl
    refine ⟨hrel, hframe.terminal.trans hflushed.terminal,
      hstays.held fun ch hne => absurd (hnil ch) hne, Or.inl ?_⟩
    rw [hframe.stage]
    rfl

/-- `feed_protocol_token`, on the channel of the stage. -/
theorem feedProtocolToken_follows (token : TokenId) (bytes : Bytes)
    (hheld : Held f₁.state) (hc : f₁.state.stage.channel = c)
    (hf : FeedRel Rel n₁ n₂ f₁ f₂) :
    Follows limit Own
      (fun f₁' f₂' => FeedRel Rel n₁ n₂ f₁' f₂' ∧ Left c f₁.state f₁'.state)
      (feedProtocolToken A₁ policy n₁ token bytes f₁)
      (feedProtocolToken A₂ policy n₂ token bytes f₂) := by
  unfold feedProtocolToken
  rw [← hf.state]
  split
  · exact feedTokenBytes_follows policy h bytes hheld hc hf
  split
  · exact closeAtemMessage_follows policy h _ hheld hc hf
  split
  · next hopen =>
    exact openAtemMessage_follows policy h
      (header_of_not_body.mp hopen.2) hheld hc hf
  split
  · exact closeAtemMessage_follows policy h _ hheld hc hf
  · exact feedTokenBytes_follows policy h bytes hheld hc hf

omit policy h

/-- The end of `terminalize`. -/
def terminalized (f : Feed) : Except Exception (DecoderState × PublishedOutput) :=
  .ok ({ f.state with stopPending := fun _ => [], terminal := true }, f.emitted)

/-- `terminalize`, of a state that is ready for the channel. -/
theorem terminalize_follows (policy : StopPolicy)
    (h : Coupled limit A₁ A₂ c Rel) {st : DecoderState}
    {o₁ o₂ : PublishedOutput} (n₁ n₂ : Nat) (hready : Ready c st)
    (hrel : Rel o₁ o₂) :
    Follows limit Own (fun r₁ r₂ => r₁.1 = r₂.1 ∧ Rel r₁.2 r₂.2)
      (terminalize A₁ policy n₁ st o₁)
      (terminalize A₂ policy n₂ st o₂) := by
  have hstart : FeedRel Rel n₁ n₂ ⟨st, o₁, none⟩ ⟨st, o₂, none⟩ :=
    ⟨rfl, hrel, trivial⟩
  have hend : ∀ {e₁ e₂ : Feed}, FeedRel Rel n₁ n₂ e₁ e₂ →
      Follows limit Own (fun r₁ r₂ => r₁.1 = r₂.1 ∧ Rel r₁.2 r₂.2)
        (terminalized e₁) (terminalized e₂) := by
    intro e₁ e₂ he
    refine .ok ⟨?_, he.emitted⟩
    rw [he.state]
  unfold terminalize
  rcases hready with hc | ⟨hutf8, hheader, hnil⟩
  · refine (flushIncompleteUtf8_follows policy h hc hstart).bind ?_
    rintro d₁ d₂ ⟨hd, hflushed⟩
    have hdc : d₁.state.stage.channel = c := by
      rw [hflushed.stage]
      exact hc
    have hstage : Follows limit Own (FeedRel Rel n₁ n₂)
        (flushStage A₁ policy n₁ d₁) (flushStage A₂ policy n₂ d₂) := by
      unfold flushStage
      rw [← hd.state]
      split
      · next hheader =>
        have hcontent : .content = c := by
          rw [← hdc]
          rcases hheader with hs | hs <;> rw [hs] <;> rfl
        have hflush : Follows limit Own (FeedRel Rel n₁ n₂)
            (flushHeader A₁ policy n₁ d₁)
            (flushHeader A₂ policy n₂ d₂) := by
          unfold flushHeader
          rw [← hd.state]
          split
          · exact .ok hd
          · subst hcontent
            have hfed := feedChannel_follows policy h d₁.state.headerPending hd
            refine hfed.bind ?_
            rintro e₁ e₂ ⟨he, -⟩
            obtain ⟨st, e₁, e₂, b₁, b₂, rfl, rfl, he, hb⟩ := he.cases
            exact .ok ⟨rfl, he, hb⟩
        refine hflush.bind fun e₁ e₂ he => ?_
        exact (closeChannel_follows h (Or.inl hcontent) he).mono
          fun _ _ hclosed => hclosed.1
      · exact (closeChannel_follows h (Or.inl hdc) hd).mono
          fun _ _ hclosed => hclosed.1
    exact hstage.bind fun e₁ e₂ he => hend he
  · have hflush : ∀ (A : Append) n o, flushIncompleteUtf8 A policy n
        ⟨st, o, none⟩ = .ok ⟨st, o, none⟩ := by
      intro A n o
      unfold flushIncompleteUtf8
      rw [hutf8]
      rfl
    have hstage : ∀ (A : Append) n o, flushStage A policy n ⟨st, o, none⟩
        = closeChannel A st.stage.channel ⟨st, o, none⟩ := by
      intro A n o
      unfold flushStage
      split
      · next hs =>
        have hchannel : st.stage.channel = .content := by
          rcases hs with hs | hs <;> rw [hs] <;> rfl
        rw [hchannel]
        unfold flushHeader
        rw [hheader]
        rfl
      · rfl
    rw [hflush, hflush, ok_bind, ok_bind, hstage, hstage]
    refine (closeChannel_follows h (Or.inr hnil) hstart).bind ?_
    rintro e₁ e₂ ⟨he, -⟩
    exact hend he

end

end Ginfer.Muse
