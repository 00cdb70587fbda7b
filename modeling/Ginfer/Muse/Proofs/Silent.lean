/-
Turns that put out nothing.

A turn that goes on touches its output exactly when it puts text out: a
candidate is made only where a match is found, and a match finishes. So a
turn that goes on and leaves the empty output empty passes the probe
(`touches_of_silent`): where a feed stays quiet, every text that it
appended was empty.
-/
import Ginfer.Muse.Proofs.Turns

namespace Ginfer.Muse

open Ginfer.Lib Ginfer.Frontend OutputDecision

-- ============ feeds

/-- Nothing was put out and no stop string found. -/
def Quiet (f : Feed) : Prop :=
  f.emitted = [] ∧ f.best.filter (·.found) = none

/-- What stays quiet was quiet, and passes the probe. -/
def Silent (feed : Append → Feed → Except Exception Feed) : Prop :=
  ∀ f f', feed appendDelta f = .ok f' → Quiet f' →
    Quiet f ∧ feed probe f = .ok f'

theorem Silent.bind {first second : Append → Feed → Except Exception Feed}
    (h₁ : Silent first) (h₂ : Silent second) :
    Silent fun append f => first append f >>= second append := by
  intro f f'' h hq
  obtain ⟨f', hfirst, hsecond⟩ := bind_ok.mp h
  obtain ⟨hq', hsecond⟩ := h₂ f' f'' hsecond hq
  obtain ⟨hq, hfirst⟩ := h₁ f f' hfirst hq'
  exact ⟨hq, bind_ok.mpr ⟨f', hfirst, hsecond⟩⟩

theorem appendDelta_silent {o : PublishedOutput} {c : OutputChannel}
    {t : Bytes} (h : appendDelta o c t = .ok []) :
    o = [] ∧ probe o c t = .ok [] := by
  by_cases ht : t = []
  · subst ht
    cases h
    exact ⟨rfl, rfl⟩
  cases hroom : hasRoom (channels o) c with
  | false =>
    rw [appendDelta_full hroom ht] at h
    cases h
  | true =>
    obtain ⟨o', ho', hruns, -⟩ := appendDelta_room hroom ht
    obtain rfl : [] = o' := Except.ok.inj (h.symm.trans ho')
    have hlast := getLast?_addRun (channels o) c
    rw [← hruns] at hlast
    cases hlast

variable {policy : StopPolicy} {n : Nat} {channel : OutputChannel}
  {text combined : Bytes} {start : Nat} {e : PublishedOutput} {f f' : Feed}

/-- Where nothing is found no candidate is made. -/
theorem searchStops_silent {m : StopMatch} (hm : m.found = false) :
    ∀ (strings : List StopString) (order : Nat) (best : StopMatch),
      searchStops appendDelta n channel combined start e order strings best
        = .ok m → best.found = false
      ∧ searchStops probe n channel combined start e order strings best
        = .ok m := by
  intro strings
  induction strings with
  | nil =>
    intro order best h
    cases h
    exact ⟨hm, rfl⟩
  | cons stop rest ih =>
    intro order best
    unfold searchStops
    split
    · exact ih _ _
    split
    · exact ih _ _
    split
    · exact ih _ _
    · intro h
      obtain ⟨candidate, -, h⟩ := bind_ok.mp h
      cases (ih _ _ h).1

theorem searchBest_silent {b b' : Option StopMatch}
    (h : searchBest appendDelta policy n channel combined start e b = .ok b')
    (hb : b = none ∨ b'.filter (·.found) = none) :
    b.filter (·.found) = none
      ∧ searchBest probe policy n channel combined start e b = .ok b' := by
  cases b with
  | none =>
    cases h
    exact ⟨rfl, rfl⟩
  | some best =>
    obtain ⟨m, hm, h⟩ := bind_ok.mp h
    cases h
    obtain ⟨hbest, hprobe⟩ := searchStops_silent (by simpa using hb) _ _ _ hm
    exact ⟨by simpa using hbest, bind_ok.mpr ⟨m, hprobe, rfl⟩⟩

theorem feedChannel_silent
    (h : feedChannel appendDelta policy n channel text f = .ok f')
    (he : f'.emitted = [])
    (hb : f.best = none ∨ f'.best.filter (·.found) = none) :
    Quiet f ∧ feedChannel probe policy n channel text f = .ok f' := by
  unfold feedChannel at h ⊢
  split at h
  · next hempty =>
    cases h
    refine ⟨⟨he, hb.elim (fun h => by rw [h]; rfl) id⟩, if_pos hempty⟩
  · next hempty =>
    obtain ⟨best, hbest, h⟩ := bind_ok.mp h
    obtain ⟨emitted, hemit, h⟩ := bind_ok.mp h
    cases h
    obtain rfl : emitted = [] := he
    obtain ⟨hfound, hsearch⟩ := searchBest_silent hbest hb
    obtain ⟨he, hprobe⟩ := appendDelta_silent hemit
    rw [if_neg hempty]
    exact ⟨⟨he, hfound⟩,
      bind_ok.mpr ⟨best, hsearch, bind_ok.mpr ⟨[], hprobe, rfl⟩⟩⟩

theorem feedDecodedText_silent
    (h : feedDecodedText appendDelta policy n text f = .ok f')
    (he : f'.emitted = [])
    (hb : f.best = none ∨ f'.best.filter (·.found) = none) :
    Quiet f ∧ feedDecodedText probe policy n text f = .ok f' := by
  unfold feedDecodedText at h ⊢
  split at h
  · next hheader =>
    cases h
    refine ⟨⟨he, hb.elim (fun h => by rw [h]; rfl) id⟩, if_pos hheader⟩
  · next hbody =>
    rw [if_neg hbody]
    exact feedChannel_silent h he hb

theorem closeChannel_silent (channel : OutputChannel) :
    Silent fun append => closeChannel append channel := by
  intro f f' h hq
  obtain ⟨emitted, hemit, h⟩ := bind_ok.mp h
  cases h
  obtain ⟨rfl, hfound⟩ : emitted = [] ∧ f.best.filter (·.found) = none := hq
  obtain ⟨he, hprobe⟩ := appendDelta_silent hemit
  exact ⟨⟨he, hfound⟩, bind_ok.mpr ⟨[], hprobe, rfl⟩⟩

theorem withoutMatch_silent {feed₁ feed₂ : Feed → Except Exception Feed}
    (h : ∀ f f', feed₁ f = .ok f' → f'.emitted = [] → f.best = none →
      Quiet f ∧ feed₂ f = .ok f')
    (hfeed : withoutMatch feed₁ f = .ok f') (hq : Quiet f') :
    Quiet f ∧ withoutMatch feed₂ f = .ok f' := by
  obtain ⟨fed, hfed, hf⟩ := bind_ok.mp hfeed
  cases hf
  obtain ⟨hquiet, hprobe⟩ := h _ fed hfed hq.1 rfl
  exact ⟨⟨hquiet.1, hq.2⟩, bind_ok.mpr ⟨fed, hprobe, rfl⟩⟩

theorem flushIncompleteUtf8_silent :
    Silent fun append => flushIncompleteUtf8 append policy n := by
  intro f f' h hq
  dsimp only at h ⊢
  unfold flushIncompleteUtf8 at h ⊢
  split at h
  · next hempty =>
    cases h
    exact ⟨hq, if_pos hempty⟩
  · next hempty =>
    rw [if_neg hempty]
    exact withoutMatch_silent
      (fun _ _ h he hb => feedDecodedText_silent h he (.inl hb)) h hq

theorem feedTokenBytes_silent (bytes : Bytes) :
    Silent fun append => feedTokenBytes append policy n bytes := by
  intro f f' h hq
  obtain ⟨valid, hvalid, h⟩ := bind_ok.mp h
  split at h
  · next hzero =>
    cases h
    exact ⟨hq, bind_ok.mpr ⟨valid, hvalid, if_pos hzero⟩⟩
  · next hzero =>
    obtain ⟨hquiet, hprobe⟩ := feedDecodedText_silent h hq.1 (.inr hq.2)
    exact ⟨hquiet, bind_ok.mpr ⟨valid, hvalid, (if_neg hzero).trans hprobe⟩⟩

theorem closeAtemMessage_silent (stage : AtemStage) :
    Silent fun append => closeAtemMessage append policy n stage := by
  refine flushIncompleteUtf8_silent.bind (Silent.bind (fun f f' h hq => ?_)
    fun f f' h hq => ?_)
  · unfold closeBody at h ⊢
    split at h
    · next hbody =>
      rw [if_pos hbody]
      exact closeChannel_silent _ f f' h hq
    · next hbody =>
      cases h
      exact ⟨hq, if_neg hbody⟩
  · cases h
    exact ⟨hq, rfl⟩

theorem openAtemMessage_silent :
    Silent fun append => openAtemMessage append policy n := by
  refine flushIncompleteUtf8_silent.bind fun f f' h hq => ?_
  unfold openBody at h ⊢
  dsimp only at h ⊢
  split at h
  · cases h
    exact ⟨hq, rfl⟩
  · exact withoutMatch_silent
      (fun _ _ h he hb => feedChannel_silent h he (.inl hb)) h hq

theorem feedProtocolToken_silent (token : TokenId) (bytes : Bytes) :
    Silent fun append => feedProtocolToken append policy n token bytes := by
  intro f f'
  dsimp only
  unfold feedProtocolToken
  split
  · exact feedTokenBytes_silent bytes f f'
  split
  · exact closeAtemMessage_silent _ f f'
  split
  · exact openAtemMessage_silent f f'
  split
  · exact closeAtemMessage_silent _ f f'
  · exact feedTokenBytes_silent bytes f f'

-- ============ turns

variable {s : SessionOptions} {st st' : DecoderState} {token : TokenId}

/-- A stop token finishes. -/
theorem finishOnStopToken_finish {append : Append} {o o' : PublishedOutput} :
    finishOnStopToken append s n st o ≠ .ok (.next st' o') := by
  intro h
  obtain ⟨⟨d, e⟩, -, h⟩ := bind_ok.mp h
  cases h

theorem previewToken_silent
    (h : previewToken appendDelta s n st [] token = .ok (.next st' [])) :
    previewToken probe s n st [] token = .ok (.next st' []) := by
  unfold previewToken at h ⊢
  split at h
  · cases h
  next hvalid =>
  split at h
  · exact absurd h finishOnStopToken_finish
  next hshown =>
  rw [if_neg hvalid, if_neg hshown]
  obtain ⟨bytes, hbytes, h⟩ := bind_ok.mp h
  obtain ⟨⟨st₁, e, best⟩, hfed, h⟩ := bind_ok.mp h
  split at h
  · cases h
  next hfound =>
  split at h
  · exact absurd h finishOnStopToken_finish
  next hstop =>
  cases h
  refine bind_ok.mpr ⟨bytes, hbytes, bind_ok.mpr ⟨_,
    (feedProtocolToken_silent token bytes _ _ hfed ⟨rfl, hfound⟩).2, ?_⟩⟩
  rw [hfound]
  exact if_neg hstop

/-- A token that finishes gives a reason. -/
theorem previewToken_reason {append : Append}
    {count : Nat} {state state' : DecoderState}
    {output output' : PublishedOutput} {reason : FinishReason}
    (h : previewToken append s count state output token
      = .ok (.finish state' output' reason)) : reason ≠ .none := by
  have hstop : ∀ {st : DecoderState} {o : PublishedOutput},
      finishOnStopToken append s count st o
        = .ok (.finish state' output' reason) → reason ≠ .none := by
    intro st o hfinish
    unfold finishOnStopToken at hfinish
    obtain ⟨⟨d, e⟩, -, hend⟩ := bind_ok.mp hfinish
    cases hend
    decide
  unfold previewToken at h
  split at h
  · cases h
  split at h
  · exact hstop h
  unfold feedToken at h
  obtain ⟨bytes, -, h⟩ := bind_ok.mp h
  obtain ⟨fed, -, h⟩ := bind_ok.mp h
  split at h
  · cases h
    decide
  split at h
  · exact hstop h
  · cases h

/-- A turn that goes on and puts out nothing touches nothing. -/
theorem touches_of_silent {reason : FinishReason} {budget : Nat}
    {d : OutputDecision} (hreason : reason ≠ .none)
    (h : turnAlone appendDelta s reason budget st token = .ok (st', [], d))
    (hgo : d.finished = false) : touches s reason budget st token = false := by
  unfold turnAlone previewLoop at h
  obtain ⟨step, hstep, h⟩ := bind_ok.mp h
  unfold touches turnAlone previewLoop
  cases step with
  | finish st₁ o r =>
    cases h
    simp [finished, previewToken_reason hstep] at hgo
  | next st₁ o =>
    dsimp only at h
    unfold previewLoop at h
    split at h
    · obtain ⟨⟨st₂, o₂⟩, -, h⟩ := bind_ok.mp h
      cases h
      simp [finished, hreason] at hgo
    · next hb =>
      cases h
      rw [previewToken_silent hstep, ok_bind]
      dsimp only
      rw [previewLoop, if_neg hb]

end Ginfer.Muse
