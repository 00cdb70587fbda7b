/-
The decoder does not read what it has emitted.

Splitting a generation into rounds changes one thing the decoder is
handed: the output accumulated so far in the round, onto which it appends.
This module runs the decoder TWICE in lockstep — from the same state, over
two outputs whose texts differ by a fixed prefix per channel (`base`), and
with two round positions `c₁`, `c₂` — and shows that both runs return, end
in the same state, and that the outputs still differ by exactly `base`.

# Why both return

Below the UTF-8 scan only `push_back` can throw, at a third delta. The
decoder never gets there: it emits reasoning, then content, and
`append_delta` merges neighbours, so the output is always `Staged` for the
mode the decoder is in. Lockstep carries `Staged` along, and the failure
never arises; the one throw left is the scanner's own
(`feedTokenBytes_lockstep`).
-/
import Ginfer.Frontend.OutputSession

namespace Ginfer.Frontend

open Ginfer.Lib

-- ============ the output

/-- The channel the decoder feeds in a mode. -/
def channelOf (inReasoning : Bool) : OutputChannel :=
  if inReasoning then .reasoning else .content

/-- The outputs the decoder can have emitted in a mode: reasoning only
while reasoning, at most one delta of each channel in that order after. -/
def Staged : Bool → PublishedOutput → Prop
  | true, e => e = [] ∨ ∃ t, e = [⟨.reasoning, t⟩]
  | false, e => e = [] ∨ (∃ ch t, e = [⟨ch, t⟩])
    ∨ ∃ t u, e = [⟨.reasoning, t⟩, ⟨.content, u⟩]

/-- Leaving reasoning keeps the output staged. -/
theorem Staged.weaken {e : PublishedOutput} (h : Staged true e) :
    Staged false e := by
  rcases h with rfl | ⟨t, rfl⟩
  · exact Or.inl rfl
  · exact Or.inr (Or.inl ⟨.reasoning, t, rfl⟩)

/-- Nothing emitted yet is staged in every mode. -/
theorem Staged.nil (r : Bool) : Staged r [] := by
  cases r with
  | false => exact Or.inl rfl
  | true => exact Or.inl rfl

@[simp] theorem textOn_nil (ch : OutputChannel) : textOn ch [] = [] := rfl

/-- `append_delta` on the mode's own channel returns, keeps the output
staged, and adds the text to that channel only. -/
theorem appendDelta_staged {r : Bool} {e : PublishedOutput}
    (h : Staged r e) (t : Bytes) :
    ∃ e', appendDelta e (channelOf r) t = .ok e' ∧ Staged r e'
      ∧ ∀ ch, textOn ch e'
        = textOn ch e ++ if ch = channelOf r then t else [] := by
  unfold appendDelta
  split
  · next hempty =>
    have ht : t = [] := List.isEmpty_iff.mp hempty
    exact ⟨e, rfl, h, by simp [ht]⟩
  cases r with
  | true =>
    rcases h with rfl | ⟨u, rfl⟩
    · refine ⟨[⟨.reasoning, t⟩], rfl, Or.inr ⟨t, rfl⟩, ?_⟩
      intro ch
      cases ch <;> simp [textOn, channelOf]
    · refine ⟨[⟨.reasoning, u ++ t⟩], rfl, Or.inr ⟨u ++ t, rfl⟩, ?_⟩
      intro ch
      cases ch <;> simp [textOn, channelOf]
  | false =>
    rcases h with rfl | ⟨ch₀, u, rfl⟩ | ⟨u, v, rfl⟩
    · refine ⟨[⟨.content, t⟩], rfl, Or.inr (Or.inl ⟨_, t, rfl⟩), ?_⟩
      intro ch
      cases ch <;> simp [textOn, channelOf]
    · cases ch₀ with
      | content =>
        refine ⟨[⟨.content, u ++ t⟩], rfl, Or.inr (Or.inl ⟨_, u ++ t, rfl⟩), ?_⟩
        intro ch
        cases ch <;> simp [textOn, channelOf]
      | reasoning =>
        refine ⟨[⟨.reasoning, u⟩, ⟨.content, t⟩], rfl,
          Or.inr (Or.inr ⟨u, t, rfl⟩), ?_⟩
        intro ch
        cases ch <;> simp [textOn, channelOf]
    · refine ⟨[⟨.reasoning, u⟩, ⟨.content, v ++ t⟩], rfl,
        Or.inr (Or.inr ⟨u, v ++ t, rfl⟩), ?_⟩
      intro ch
      cases ch <;> simp [textOn, channelOf]

-- ============ the twins

/-- Two outputs of the same mode whose texts differ by `base` in
front. -/
structure Twin (base : OutputChannel → Bytes) (r : Bool)
    (e₁ e₂ : PublishedOutput) : Prop where
  staged₁ : Staged r e₁
  staged₂ : Staged r e₂
  text : ∀ ch, textOn ch e₁ = base ch ++ textOn ch e₂

/-- Two best matches found at the same place, their outputs differing by
`base`. -/
def MatchTwin (base : OutputChannel → Bytes) (c₁ c₂ : Nat) :
    Option StopMatch → Option StopMatch → Prop
  | none, none => True
  | some m₁, some m₂ =>
    m₁.found = m₂.found
      ∧ (m₁.found = true →
          m₁.committedTokens = c₁ ∧ m₂.committedTokens = c₂
            ∧ m₁.byteCut = m₂.byteCut
            ∧ m₁.declarationOrder = m₂.declarationOrder
            ∧ ∀ ch, textOn ch m₁.output = base ch ++ textOn ch m₂.output)
  | _, _ => False

/-- Two feeds in lockstep. -/
structure Lockstep (base : OutputChannel → Bytes) (c₁ c₂ : Nat)
    (f₁ f₂ : Feed) : Prop where
  state : f₁.state = f₂.state
  emitted : Twin base f₁.state.inReasoning f₁.emitted f₂.emitted
  best : MatchTwin base c₁ c₂ f₁.best f₂.best

section

variable {base : OutputChannel → Bytes} {c₁ c₂ : Nat} {r : Bool}
  {e₁ e₂ : PublishedOutput}

theorem appendDelta_twin (h : Twin base r e₁ e₂) (t : Bytes) :
    ∃ e₁' e₂', appendDelta e₁ (channelOf r) t = .ok e₁'
      ∧ appendDelta e₂ (channelOf r) t = .ok e₂'
      ∧ Twin base r e₁' e₂' := by
  obtain ⟨e₁', h₁, hs₁, ht₁⟩ := appendDelta_staged h.staged₁ t
  obtain ⟨e₂', h₂, hs₂, ht₂⟩ := appendDelta_staged h.staged₂ t
  refine ⟨e₁', e₂', h₁, h₂, hs₁, hs₂, ?_⟩
  intro ch
  rw [ht₁ ch, ht₂ ch, h.text ch, List.append_assoc]

theorem stopCandidate_twin (h : Twin base r e₁ e₂) (before : Bytes)
    (stop : StopString) :
    ∃ e₁' e₂', stopCandidate e₁ (channelOf r) before stop = .ok e₁'
      ∧ stopCandidate e₂ (channelOf r) before stop = .ok e₂'
      ∧ Twin base r e₁' e₂' := by
  obtain ⟨d₁, d₂, h₁, h₂, hd⟩ := appendDelta_twin h before
  unfold stopCandidate
  rw [h₁, h₂]
  simp only
  split
  · exact appendDelta_twin hd stop.text
  · exact ⟨d₁, d₂, rfl, rfl, hd⟩

/-- Twins agree on whether a new match precedes them. -/
theorem stopMatchPrecedes_twin {m₁ m₂ : StopMatch}
    (h : MatchTwin base c₁ c₂ (some m₁) (some m₂)) (cut order : Nat) :
    stopMatchPrecedes c₁ cut order m₁ = stopMatchPrecedes c₂ cut order m₂ := by
  obtain ⟨hfound, hrest⟩ := h
  unfold stopMatchPrecedes
  rw [← hfound]
  cases hf : m₁.found with
  | false => rfl
  | true =>
    obtain ⟨hc₁, hc₂, hcut, horder, -⟩ := hrest hf
    rw [hc₁, hc₂, hcut, horder]
    simp

/-- The search loop finds the same match. -/
theorem searchStops_twin (h : Twin base r e₁ e₂) (combined : Bytes)
    (start : Nat) :
    ∀ (strings : List StopString) (order : Nat) (m₁ m₂ : StopMatch),
      MatchTwin base c₁ c₂ (some m₁) (some m₂) →
      ∃ m₁' m₂', searchStops (channelOf r) combined start c₁ e₁ order
        strings m₁ = .ok m₁'
        ∧ searchStops (channelOf r) combined start c₂ e₂ order strings m₂
        = .ok m₂'
        ∧ MatchTwin base c₁ c₂ (some m₁') (some m₂') := by
  intro strings
  induction strings with
  | nil =>
    intro order m₁ m₂ hm
    exact ⟨m₁, m₂, rfl, rfl, hm⟩
  | cons stop rest ih =>
    intro order m₁ m₂ hm
    unfold searchStops
    split
    · exact ih (order + 1) m₁ m₂ hm
    split
    · exact ih (order + 1) m₁ m₂ hm
    next found _ =>
    rw [stopMatchPrecedes_twin hm (start + found) order]
    split
    · exact ih (order + 1) m₁ m₂ hm
    obtain ⟨d₁, d₂, h₁, h₂, hd⟩ :=
      stopCandidate_twin h (combined.take found) stop
    rw [h₁, h₂]
    exact ih (order + 1) _ _ ⟨rfl, fun _ => ⟨rfl, rfl, rfl, rfl, hd.text⟩⟩

theorem searchBest_twin (policy : StopPolicy) (h : Twin base r e₁ e₂)
    (combined : Bytes) (start : Nat) {b₁ b₂ : Option StopMatch}
    (hb : MatchTwin base c₁ c₂ b₁ b₂) :
    ∃ b₁' b₂', searchBest policy (channelOf r) combined start c₁ e₁ b₁ = .ok b₁'
      ∧ searchBest policy (channelOf r) combined start c₂ e₂ b₂ = .ok b₂'
      ∧ MatchTwin base c₁ c₂ b₁' b₂' := by
  match b₁, b₂, hb with
  | none, none, _ => exact ⟨none, none, rfl, rfl, trivial⟩
  | some m₁, some m₂, hb =>
    obtain ⟨m₁', m₂', h₁, h₂, hm⟩ :=
      searchStops_twin h combined start policy.strings 0 m₁ m₂ hb
    unfold searchBest
    simp only [h₁, h₂]
    exact ⟨some m₁', some m₂', rfl, rfl, hm⟩

end

-- ============ the feeds

section

variable {base : OutputChannel → Bytes} {c₁ c₂ : Nat} {f₁ f₂ : Feed}

/-- What a feed function does in lockstep: both runs return, in lockstep
again, and the session's `terminal` flag is untouched. -/
def FedTogether (base : OutputChannel → Bytes) (c₁ c₂ : Nat)
    (f₁ : Feed) (x₁ x₂ : Except Exception Feed) : Prop :=
  ∃ f₁' f₂', x₁ = .ok f₁' ∧ x₂ = .ok f₂' ∧ Lockstep base c₁ c₂ f₁' f₂'
    ∧ f₁'.state.terminal = f₁.state.terminal

/-- `feed_channel` on the mode's own channel; it stays in the mode. -/
theorem feedChannel_lockstep (policy : StopPolicy) (text : Bytes)
    (h : Lockstep base c₁ c₂ f₁ f₂) {r : Bool}
    (hr : f₁.state.inReasoning = r) :
    ∃ f₁' f₂', feedChannel policy c₁ (channelOf r) text f₁ = .ok f₁'
      ∧ feedChannel policy c₂ (channelOf r) text f₂ = .ok f₂'
      ∧ Lockstep base c₁ c₂ f₁' f₂'
      ∧ f₁'.state.terminal = f₁.state.terminal
      ∧ f₁'.state.inReasoning = r := by
  have htwin := h.emitted
  rw [hr] at htwin
  unfold feedChannel
  split
  · exact ⟨f₁, f₂, rfl, rfl, h, rfl, hr⟩
  simp only [← h.state]
  obtain ⟨b₁, b₂, hb₁, hb₂, hb⟩ := searchBest_twin policy htwin
    (f₁.state.stopPending (channelOf r) ++ text)
    (f₁.state.decodedBytes - (f₁.state.stopPending (channelOf r)).length)
    h.best
  rw [hb₁, hb₂]
  simp only
  obtain ⟨e₁, e₂, he₁, he₂, he⟩ := appendDelta_twin htwin
    ((f₁.state.stopPending (channelOf r) ++ text).take
      ((f₁.state.stopPending (channelOf r) ++ text).length
        - stopHoldSize (f₁.state.stopPending (channelOf r) ++ text)
            (channelOf r) policy))
  rw [he₁, he₂]
  exact ⟨_, _, rfl, rfl, ⟨rfl, hr ▸ he, hb⟩, rfl, hr⟩

/-- `close_channel` on the mode's own channel. -/
theorem closeChannel_lockstep (h : Lockstep base c₁ c₂ f₁ f₂) {r : Bool}
    (hr : f₁.state.inReasoning = r) :
    ∃ f₁' f₂', closeChannel (channelOf r) f₁ = .ok f₁'
      ∧ closeChannel (channelOf r) f₂ = .ok f₂'
      ∧ Lockstep base c₁ c₂ f₁' f₂'
      ∧ f₁'.state.terminal = f₁.state.terminal
      ∧ f₁'.state.inReasoning = r := by
  have htwin := h.emitted
  rw [hr] at htwin
  obtain ⟨e₁, e₂, he₁, he₂, he⟩ :=
    appendDelta_twin htwin (f₁.state.stopPending (channelOf r))
  unfold closeChannel
  simp only [← h.state]
  rw [he₁, he₂]
  exact ⟨_, _, rfl, rfl, ⟨rfl, hr ▸ he, h.best⟩, rfl, hr⟩

/-- Both states of a lockstep may be edited alike, in fields that leave
the mode as it was. -/
theorem Lockstep.edit (h : Lockstep base c₁ c₂ f₁ f₂)
    (g : DecoderState → DecoderState)
    (hg : (g f₁.state).inReasoning = f₁.state.inReasoning) :
    Lockstep base c₁ c₂ { f₁ with state := g f₁.state }
      { f₂ with state := g f₂.state } :=
  ⟨congrArg g h.state, hg ▸ h.emitted, h.best⟩

theorem feedContent_lockstep (policy : StopPolicy) (text : Bytes)
    (h : Lockstep base c₁ c₂ f₁ f₂) (hr : f₁.state.inReasoning = false) :
    FedTogether base c₁ c₂ f₁ (feedContent policy c₁ text f₁)
      (feedContent policy c₂ text f₂) := by
  unfold feedContent
  rw [← h.state]
  split
  · have hedit := h.edit (fun st =>
      { st with stripContentLeading := (text.dropWhile isSpace).isEmpty })
      rfl
    obtain ⟨f₁', f₂', h₁, h₂, hl, ht, -⟩ :=
      feedChannel_lockstep policy (text.dropWhile isSpace) hedit (r := false) hr
    rw [← h.state] at h₂
    exact ⟨f₁', f₂', h₁, h₂, hl, ht⟩
  · obtain ⟨f₁', f₂', h₁, h₂, hl, ht, -⟩ :=
      feedChannel_lockstep policy text h (r := false) hr
    exact ⟨f₁', f₂', h₁, h₂, hl, ht⟩

/-- The end of reasoning: the mode changes, and the output emitted while
reasoning is staged for the content that follows. -/
theorem closeReasoning_lockstep (policy : StopPolicy)
    (before after : Bytes) (h : Lockstep base c₁ c₂ f₁ f₂)
    (hr : f₁.state.inReasoning = true) :
    FedTogether base c₁ c₂ f₁ (closeReasoning policy c₁ before after f₁)
      (closeReasoning policy c₂ before after f₂) := by
  obtain ⟨d₁, d₂, hd₁, hd₂, hd, hdt, hdr⟩ :=
    feedChannel_lockstep policy before h (r := true) hr
  obtain ⟨g₁, g₂, hg₁, hg₂, hg, hgt, hgr⟩ :=
    closeChannel_lockstep hd (r := true) hdr
  have hd₁' : feedChannel policy c₁ .reasoning before f₁ = .ok d₁ := hd₁
  have hd₂' : feedChannel policy c₂ .reasoning before f₂ = .ok d₂ := hd₂
  have hg₁' : closeChannel .reasoning d₁ = .ok g₁ := hg₁
  have hg₂' : closeChannel .reasoning d₂ = .ok g₂ := hg₂
  unfold closeReasoning
  rw [hd₁', hd₂']
  simp only
  rw [hg₁', hg₂']
  simp only
  have htwin := hg.emitted
  rw [hgr] at htwin
  have hopen : Lockstep base c₁ c₂
      { g₁ with state := { g₁.state with
          thinkMarkerPending := [], inReasoning := false,
          stripContentLeading := true } }
      { g₂ with state := { g₂.state with
          thinkMarkerPending := [], inReasoning := false,
          stripContentLeading := true } } := by
    refine ⟨?_, ⟨htwin.staged₁.weaken, htwin.staged₂.weaken, htwin.text⟩, hg.best⟩
    show DecoderState.mk .. = DecoderState.mk ..
    rw [hg.state]
  obtain ⟨k₁, k₂, hk₁, hk₂, hk, hkt⟩ :=
    feedContent_lockstep policy after hopen rfl
  exact ⟨k₁, k₂, hk₁, hk₂, hk, hkt.trans (hgt.trans hdt)⟩

theorem feedDecodedText_lockstep (policy : StopPolicy) (text : Bytes)
    (h : Lockstep base c₁ c₂ f₁ f₂) :
    FedTogether base c₁ c₂ f₁ (feedDecodedText policy c₁ text f₁)
      (feedDecodedText policy c₂ text f₂) := by
  unfold feedDecodedText
  simp only [← h.state]
  split
  · next hr => exact feedContent_lockstep policy text h (by simpa using hr)
  next hr =>
  have hr' : f₁.state.inReasoning = true := by simpa using hr
  have hedit := h.edit (fun st => { st with
    thinkMarkerPending := f₁.state.thinkMarkerPending ++ text }) rfl
  simp only [← h.state] at hedit
  split
  · exact closeReasoning_lockstep policy _ _ hedit hr'
  · obtain ⟨d₁, d₂, hd₁, hd₂, hd, hdt, -⟩ :=
      feedChannel_lockstep policy
        ((f₁.state.thinkMarkerPending ++ text).take
          ((f₁.state.thinkMarkerPending ++ text).length
            - longestSuffixPrefix (f₁.state.thinkMarkerPending ++ text)
                thinkClose true)) hedit (r := true) hr'
    have hd₁' := hd₁
    have hd₂' := hd₂
    simp only [channelOf, if_true] at hd₁' hd₂'
    rw [hd₁', hd₂']
    exact ⟨_, _, rfl, rfl, hd.edit (fun st => { st with
      thinkMarkerPending := _ }) rfl, hdt⟩

/-- `feed_token_bytes`: the scanner's throw is the only one. -/
theorem feedTokenBytes_lockstep (policy : StopPolicy) (bytes : Bytes)
    (h : Lockstep base c₁ c₂ f₁ f₂) (valid : Nat)
    (hvalid : validUtf8PrefixSize (f₁.state.utf8Pending ++ bytes) = .ok valid) :
    FedTogether base c₁ c₂ f₁ (feedTokenBytes policy c₁ bytes f₁)
      (feedTokenBytes policy c₂ bytes f₂) := by
  unfold feedTokenBytes
  simp only [← h.state, hvalid]
  split
  · refine ⟨_, _, rfl, rfl, ?_, rfl⟩
    have hedit := h.edit (fun st => { st with
      utf8Pending := f₁.state.utf8Pending ++ bytes }) rfl
    simp only [← h.state] at hedit
    exact hedit
  · have hedit := h.edit (fun st => { st with
      utf8Pending := (f₁.state.utf8Pending ++ bytes).drop valid }) rfl
    simp only [← h.state] at hedit
    exact feedDecodedText_lockstep policy _ hedit

/-- `terminalize` returns, with the same decoder and twin outputs. -/
theorem terminalize_twin (policy : StopPolicy) (c₁ c₂ : Nat)
    {state : DecoderState} {e₁ e₂ : PublishedOutput}
    (h : Twin base state.inReasoning e₁ e₂) :
    ∃ state' e₁' e₂', terminalize policy c₁ state e₁ = .ok (state', e₁')
      ∧ terminalize policy c₂ state e₂ = .ok (state', e₂')
      ∧ ∀ ch, textOn ch e₁' = base ch ++ textOn ch e₂' := by
  have hstart : Lockstep base c₁ c₂ ⟨state, e₁, none⟩ ⟨state, e₂, none⟩ :=
    ⟨rfl, h, trivial⟩
  have hflush : FedTogether base c₁ c₂ ⟨state, e₁, none⟩
      (flushUtf8 policy c₁ ⟨state, e₁, none⟩)
      (flushUtf8 policy c₂ ⟨state, e₂, none⟩) := by
    unfold flushUtf8
    split
    · exact ⟨_, _, rfl, rfl, hstart, rfl⟩
    · exact feedDecodedText_lockstep policy _
        (hstart.edit (fun st => { st with utf8Pending := [] }) rfl)
  obtain ⟨f₁, f₂, hf₁, hf₂, hf, -⟩ := hflush
  have hclose : ∃ g₁ g₂, flushChannels policy c₁ f₁ = .ok g₁
      ∧ flushChannels policy c₂ f₂ = .ok g₂
      ∧ Lockstep base c₁ c₂ g₁ g₂ := by
    unfold flushChannels
    rw [← hf.state]
    split
    · next hr =>
      obtain ⟨d₁, d₂, hd₁, hd₂, hd, -, hdr⟩ := feedChannel_lockstep
        policy f₁.state.thinkMarkerPending hf (r := true) hr
      simp only [channelOf, if_true] at hd₁ hd₂
      rw [hd₁, hd₂]
      simp only
      obtain ⟨g₁, g₂, hg₁, hg₂, hg, -, -⟩ := closeChannel_lockstep
        (hd.edit (fun st => { st with thinkMarkerPending := [] }) rfl)
        (r := true) hdr
      exact ⟨g₁, g₂, hg₁, hg₂, hg⟩
    · next hr =>
      obtain ⟨g₁, g₂, hg₁, hg₂, hg, -, -⟩ := closeChannel_lockstep hf
        (r := false) (by simpa using hr)
      exact ⟨g₁, g₂, hg₁, hg₂, hg⟩
  obtain ⟨g₁, g₂, hg₁, hg₂, hg⟩ := hclose
  unfold terminalize
  rw [hf₁, hf₂]
  simp only
  rw [hg₁, hg₂]
  simp only [hg.state]
  exact ⟨_, _, _, rfl, rfl, hg.emitted.text⟩

end

end Ginfer.Frontend
