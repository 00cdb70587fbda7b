/-
What a generation publishes, against a search of its whole text.

Three results about every run of calls over a well-formed stream, read
off the invariants of a transcript:

- `stop_strings_run` — the output ends at the first token at which a stop
  string occurs, cut where a search of the accumulated text cuts it;
- `excluded_stops_run` — an excluded stop string is never published,
  except inside an included one or with bytes the terminal flush adds;
- `reasoning_split_run` — without stop strings, the two channels are the
  batch split of the decoded text at the first `</think>`.
-/
import Ginfer.Frontend.Proofs.Transcript
import Ginfer.Frontend.Proofs.Failures

namespace Ginfer.Frontend

open Ginfer.Lib List

-- ============ the end's text

namespace SessionOptions

variable {s : SessionOptions} {starts : Bool} {tokens : List TokenId}

/-- What a channel was fed when `tokens` had been generated. -/
def accumulated (s : SessionOptions) (starts : Bool)
    (tokens : List TokenId) (c : OutputChannel) : Bytes :=
  searchedText starts (s.streamText tokens) c

/-- The tokens whose text the end lets through: a stop token's own text
may be left out. -/
def shownAt (s : SessionOptions) (reason : FinishReason)
    (tokens : List TokenId) : List TokenId :=
  if reason = .stopToken then s.shown tokens else tokens

/-- A stop string occurs in what was accumulated. -/
def StopOccurs (s : SessionOptions) (starts : Bool)
    (tokens : List TokenId) : Prop :=
  ∃ stop ∈ s.policy.strings, ∃ i,
    OccursAt stop.text (s.accumulated starts tokens stop.channel) i

theorem not_stopOccurs_iff :
    ¬ s.StopOccurs starts tokens ↔ s.Unstopped starts tokens := by
  constructor
  · rintro h c p ⟨stop, hmem, rfl, rfl⟩ i hocc
    exact h ⟨stop, hmem, i, hocc⟩
  · rintro h ⟨stop, hmem, i, hocc⟩
    exact h stop.channel stop.text ⟨stop, hmem, rfl, rfl⟩ i hocc

/-- A run that did not end at a stop string met none; a run that is over
otherwise published the texts of the stream it showed. -/
theorem Ended.flushed_texts {reason : FinishReason}
    {published : OutputChannel → Bytes}
    (h : s.Ended starts tokens published reason)
    (hstring : reason ≠ .stopString) (hnone : reason ≠ .none) :
    s.Unstopped starts tokens
      ∧ ∀ c, published c
        = channelText starts (s.finalText (s.shownAt reason tokens)) c := by
  unfold shownAt
  cases reason with
  | none => exact absurd rfl hnone
  | stopString => exact absurd rfl hstring
  | stopToken => exact h
  | outputLimit => exact h
  | contextCapacity => exact h
  | cancelled => exact h

/-- A stream of well-formed bytes ends in no incomplete character. -/
theorem finalText_encode {text : List Char}
    (h : s.streamBytes tokens = encode text) :
    s.finalText tokens = encode text := by
  have htext : s.streamText tokens = encode text := by
    unfold streamText
    rw [h, scannedText_encode]
  unfold finalText
  rw [htext, h, drop_length]
  exact append_nil _

end SessionOptions

namespace Transcript

variable {s : SessionOptions} {starts : Bool} {t : Transcript}

/-- The end is a stop string exactly when one occurs. -/
theorem Served.reason_iff (h : Served s starts t) :
    t.reason = .stopString ↔ s.StopOccurs starts t.accepted := by
  constructor
  · intro hreason
    have hended := h.ended
    rw [hreason] at hended
    obtain ⟨c, start, decl, stop, hcut⟩ := hended
    have hmem := mem_of_getElem? hcut.best.declared
    refine ⟨stop, hmem, start, ?_⟩
    rw [hcut.best.on]
    exact (find_eq_some hcut.best.found).1
  · intro hoccurs
    by_contra hstring
    refine SessionOptions.not_stopOccurs_iff.mpr ?_ hoccurs
    by_cases hnone : t.reason = .none
    · exact (h.going hnone).2.unstopped
    · exact (h.ended.flushed_texts hstring hnone).1

/-- While it goes on, the content is published up to the part held
back. -/
theorem Served.content_going (h : Served s starts t) (hnone : t.reason = .none) :
    t.published .content
      = (s.accumulated starts t.accepted .content).take
        ((s.accumulated starts t.accepted .content).length
          - stopHoldSize (s.accumulated starts t.accepted .content)
              .content s.policy) := by
  have hlistening := (h.going hnone).2
  have hfed := hlistening.routed.fed .content
  have hlength := heldBack_length hlistening.guarded.content
  unfold SessionOptions.accumulated
  rw [← hfed, ← hlength, length_append, Nat.add_sub_cancel, take_left' rfl]

end Transcript

-- ============ stop strings

/-- The incremental search is the search of the accumulated text. Every
run of calls returns; no stop string occurs before the last token
accepted; the output ends at a stop string exactly when one occurs then,
cut as the whole text says; until then the content is published up to
what may begin a stop string, and another end publishes the rest. -/
theorem stop_strings_run (tokenizer : Tokenizer) (policy : StopPolicy)
    (raw preserveSpecialTokens startsInReasoning : Bool)
    (calls : List SessionCall)
    (hstops : ∀ stop ∈ policy.strings, stop.text ≠ [])
    (hcalls : ∀ c ∈ calls, c.Admitted)
    (hstream : SessionOptions.WellFormed
      ⟨tokenizer, policy, raw || preserveSpecialTokens⟩
      (calls.flatMap SessionCall.tokens)) :
    let s : SessionOptions :=
      ⟨tokenizer, policy, raw || preserveSpecialTokens⟩
    let starts := startsInReasoning && !raw
    ∃ t : Transcript,
      Transcript.serve (.start (.make tokenizer policy raw
          preserveSpecialTokens startsInReasoning)) calls = .ok t
        ∧ t.accepted <+: calls.flatMap SessionCall.tokens
        ∧ (∀ n < t.accepted.length, ¬ s.StopOccurs starts (t.accepted.take n))
        ∧ (t.reason = .stopString ↔ s.StopOccurs starts t.accepted)
        ∧ (t.reason = .stopString → ∃ c start decl stop,
            Cut policy (s.accumulated starts t.accepted) t.published c
              start decl stop)
        ∧ (t.reason = .none →
            t.accepted = calls.flatMap SessionCall.tokens
              ∧ t.published .content
                = (s.accumulated starts t.accepted .content).take
                    ((s.accumulated starts t.accepted .content).length
                      - stopHoldSize (s.accumulated starts t.accepted .content)
                          .content policy))
        ∧ (t.reason ≠ .none → t.reason ≠ .stopString →
            t.published .content
              = searchedText starts (s.finalText (s.shownAt t.reason t.accepted))
                  .content) := by
  intro s starts
  obtain ⟨t, hserve, hserved, hpart, hall⟩ := Transcript.serve_spec calls
    _ (Transcript.served_start tokenizer policy raw preserveSpecialTokens
      startsInReasoning hstops) hcalls hstream
  refine ⟨t, hserve, hpart, ?_, hserved.reason_iff, ?_, ?_, ?_⟩
  · intro n hn
    exact SessionOptions.not_stopOccurs_iff.mpr (hserved.before n hn)
  · intro hreason
    have hended := hserved.ended
    rw [hreason] at hended
    exact hended
  · intro hnone
    exact ⟨hall hnone, hserved.content_going hnone⟩
  · intro hnone hstring
    exact (hserved.ended.flushed_texts hstring hnone).2 .content

/-- Tokens that are read one by one are a well-formed stream when their
bytes are the encoding of a text. -/
theorem SessionOptions.wellFormed_of_bytes {s : SessionOptions}
    {tokens : List TokenId} (text : List Char)
    (hvalid : tokens.all s.tokenizer.isValidToken = true)
    (hdecodes : tokens.all (fun token =>
      (s.tokenizer.decodeTokenBytes token
        (!s.preserveSpecial)).toOption.isSome) = true)
    (hbytes : s.streamBytes tokens = encode text) :
    s.WellFormed tokens where
  valid := all_eq_true.mp hvalid
  decodes := by
    intro token htoken
    have hsome := all_eq_true.mp hdecodes token htoken
    cases hread : s.tokenizer.decodeTokenBytes token
        (!s.preserveSpecial) with
    | error e =>
      rw [hread] at hsome
      cases hsome
    | ok bytes => exact ⟨bytes, rfl⟩
  utf8 := ⟨text, by rw [hbytes]⟩

/-- The tokens of `hello!`. -/
def helloTokens : List TokenId := [0x68, 0x65, 0x6c, 0x6c, 0x6f, 0x21]

theorem helloTokens_wellFormed (policy : StopPolicy) :
    SessionOptions.WellFormed ⟨asciiTokenizer, policy, false⟩
      helloTokens :=
  SessionOptions.wellFormed_of_bytes ['h', 'e', 'l', 'l', 'o', '!'] rfl
    rfl rfl

/-- `hello!` in two rounds, stopped at `lo`, which straddles them. -/
theorem stop_strings_run_straddling :
    ∃ t : Transcript,
      Transcript.serve (.start (.make asciiTokenizer stopAtLo false false false))
          [.round [0x68, 0x65, 0x6c, 0x6c] 8 .outputLimit,
            .round [0x6f, 0x21] 4 .outputLimit] = .ok t
        ∧ t.accepted.length = 5
        ∧ SessionOptions.StopOccurs ⟨asciiTokenizer, stopAtLo, false⟩ false
            t.accepted
        ∧ t.published .content = [0x68, 0x65, 0x6c] := by
  obtain ⟨t, hserve, -, -, hiff, -⟩ := stop_strings_run asciiTokenizer
    stopAtLo false false false
    [.round [0x68, 0x65, 0x6c, 0x6c] 8 .outputLimit,
      .round [0x6f, 0x21] 4 .outputLimit]
    (by decide)
    (by
      intro c hc
      simp only [mem_cons, not_mem_nil, or_false] at hc
      rcases hc with rfl | rfl
      · exact ⟨by decide, by decide, Or.inl rfl⟩
      · exact ⟨by decide, by decide, Or.inl rfl⟩)
    (helloTokens_wellFormed stopAtLo)
  have hrun : (Transcript.serve (.start (.make asciiTokenizer stopAtLo
      false false false))
      [.round [0x68, 0x65, 0x6c, 0x6c] 8 .outputLimit,
        .round [0x6f, 0x21] 4 .outputLimit]).map
          (fun t => (t.accepted.length, t.reason, t.published .content))
      = .ok (5, .stopString, [0x68, 0x65, 0x6c]) := rfl
  rw [hserve] at hrun
  simp only [Except.map, Except.ok.injEq, Prod.mk.injEq] at hrun
  exact ⟨t, hserve, hrun.1, hiff.mp hrun.2.1, hrun.2.2⟩

-- ============ excluded stops

/-- What a channel was fed is the beginning of its text in the end. -/
theorem searchedText_prefix_channelText (starts : Bool)
    (text more : Bytes) (c : OutputChannel) :
    searchedText starts text c <+: channelText starts (text ++ more) c := by
  cases hmode : (starts && (find text thinkClose).isNone) with
  | false =>
    obtain ⟨hcontent, hreasoning, hmode'⟩ :=
      searchedText_append hmode more
    rw [channelText_of_closed hmode']
    cases c with
    | content =>
      rw [hcontent]
      exact prefix_append _ _
    | reasoning => rw [hreasoning]
  | true =>
    obtain ⟨hstarts, hnone⟩ := (Bool.and_eq_true _ _).mp hmode
    have hfind := Option.isNone_iff_eq_none.mp hnone
    cases c with
    | content =>
      have hempty : searchedText starts text .content = [] := by
        simp [searchedText, hstarts, hfind]
      rw [hempty]
      exact nil_prefix
    | reasoning =>
      have hopen : searchedText starts text .reasoning
          = text.take (text.length - markerHold text) := by
        simp [searchedText, hstarts, hfind]
      have htake : text.take (text.length - markerHold text)
          = (text ++ more).take (text.length - markerHold text) := by
        rw [take_append_of_le_length (by omega)]
      obtain ⟨hmarker, -⟩ := marker_append hfind more
      rw [hopen, htake]
      simp only [channelText, hstarts, if_true, hmarker]
      cases find (text.drop (text.length - markerHold text) ++ more)
          thinkClose with
      | none => exact take_prefix _ _
      | some i =>
        rw [Option.map_some]
        exact take_prefix_take_left (by omega)

/-- What a cut leaves of its channel holds an excluded stop string only
inside the stop string that won, when that one is kept. -/
theorem Cut.occursAt_inside {policy : StopPolicy}
    {searched published : OutputChannel → Bytes} {channel : OutputChannel}
    {start decl : Nat} {winner stop : StopString}
    (h : Cut policy searched published channel start decl winner)
    (hmem : stop ∈ policy.strings) (hne : stop.text ≠ [])
    (hwinner : winner.text ≠ [])
    {i : Nat} (hocc : OccursAt stop.text (published stop.channel) i) :
    stop.channel = channel ∧ winner.includeInOutput = true
      ∧ published stop.channel
        = (searched stop.channel).take start ++ winner.text
      ∧ start ≤ i := by
  have hfit := hocc.length_le hne
  have hpos := length_pos_iff.mpr hne
  by_cases hon : stop.channel = channel
  · obtain ⟨d, hd⟩ := getElem?_of_mem hmem
    have hwins := (find_eq_some h.best.found).1
    have hinside := hwins.length_le hwinner
    -- The published text is the beginning of the searched one.
    have hkept : published channel
        = (searched channel).take (start + (kept winner).length) := by
      rw [h.here]
      unfold kept
      split
      · obtain ⟨tail, htail⟩ := hwins
        rw [take_add, ← htail, take_left' rfl]
      · rw [append_nil]
        rfl
    rw [hon] at hocc hfit
    have hsearched : OccursAt stop.text (searched channel) i := by
      have hlonger := hocc.append hne
        ((searched channel).drop (start + (kept winner).length))
      rw [hkept, take_append_drop] at hlonger
      exact hlonger
    -- The winner starts first.
    obtain ⟨first, hfirst⟩ : ∃ first,
        find (searched channel) stop.text = some first := by
      cases hfind : find (searched channel) stop.text with
      | none => exact absurd hsearched ((find_eq_none hne).mp hfind i)
      | some first => exact ⟨first, rfl⟩
    have hle : first ≤ i := by
      by_contra hlt
      exact (find_eq_some hfirst).2 i (by omega) hsearched
    have hleast := h.best.least d stop first hd hon hfirst
    have hstart : start ≤ i := by omega
    have hlength : (published channel).length
        ≤ start + (kept winner).length := by
      rw [hkept, length_take]
      omega
    have hincluded : winner.includeInOutput = true := by
      by_contra hnot
      have hnil : kept winner = [] := by
        unfold kept
        rw [if_neg hnot]
      rw [hnil] at hlength
      simp only [length_nil] at hlength
      omega
    refine ⟨hon, hincluded, ?_, hstart⟩
    have hhere := h.here
    unfold kept at hhere
    rw [if_pos hincluded] at hhere
    rw [hon, hhere]
  · -- The other channel is clear, or nothing of it is out.
    exfalso
    cases hchannel : channel with
    | content =>
      have hother : stop.channel = .reasoning := by
        cases hs : stop.channel with
        | content => exact absurd (hs.trans hchannel.symm) hon
        | reasoning => rfl
      obtain ⟨hclear, hsame⟩ := h.before hchannel
      rw [hother, hsame] at hocc
      exact hclear stop.text ⟨stop, hmem, hother, rfl⟩ i hocc
    | reasoning =>
      have hother : stop.channel = .content := by
        cases hs : stop.channel with
        | content => rfl
        | reasoning => exact absurd (hs.trans hchannel.symm) hon
      rw [hother, h.after hchannel] at hfit
      simp only [length_nil] at hfit
      omega

/-- What an end other than a stop string shows held no stop string. -/
theorem Transcript.Served.shown_unstopped {s : SessionOptions}
    {starts : Bool} {t : Transcript} (h : Served s starts t)
    (hstring : t.reason ≠ .stopString) (hnone : t.reason ≠ .none) :
    s.Unstopped starts (s.shownAt t.reason t.accepted) := by
  have hall := (h.ended.flushed_texts hstring hnone).1
  unfold SessionOptions.shownAt SessionOptions.shown
  split
  · split
    · exact hall
    · by_cases hempty : t.accepted = []
      · rw [hempty] at hall ⊢
        exact hall
      · have hpos := length_pos_iff.mpr hempty
        have hbefore := h.before (t.accepted.length - 1) (by omega)
        rw [← dropLast_eq_take] at hbefore
        exact hbefore
  · exact hall

/-- An excluded stop string in the published text of its channel lies
inside the included one that won in what the channel was fed and ended the
output, or reaches into bytes that only the terminal flush gave to the
channel. -/
theorem excluded_stops_run (tokenizer : Tokenizer) (policy : StopPolicy)
    (raw preserveSpecialTokens startsInReasoning : Bool)
    (calls : List SessionCall)
    (hstops : ∀ stop ∈ policy.strings, stop.text ≠ [])
    (hcalls : ∀ c ∈ calls, c.Admitted)
    (hstream : SessionOptions.WellFormed
      ⟨tokenizer, policy, raw || preserveSpecialTokens⟩
      (calls.flatMap SessionCall.tokens)) :
    let s : SessionOptions :=
      ⟨tokenizer, policy, raw || preserveSpecialTokens⟩
    let starts := startsInReasoning && !raw
    ∃ t : Transcript,
      Transcript.serve (.start (.make tokenizer policy raw
          preserveSpecialTokens startsInReasoning)) calls = .ok t
        ∧ ∀ stop ∈ policy.strings, stop.includeInOutput = false →
            ∀ i, OccursAt stop.text (t.published stop.channel) i →
              (t.reason = .stopString ∧ ∃ start decl winner,
                BestOf stop.channel
                    (s.accumulated starts t.accepted stop.channel)
                    policy.strings start decl winner
                  ∧ winner.includeInOutput = true ∧ start ≤ i
                  ∧ t.published stop.channel
                    = (s.accumulated starts t.accepted stop.channel).take start
                      ++ winner.text)
              ∨ (t.reason ≠ .none ∧ t.reason ≠ .stopString
                ∧ (s.accumulated starts (s.shownAt t.reason t.accepted)
                    stop.channel).length < i + stop.text.length) := by
  intro s starts
  obtain ⟨t, hserve, hserved, -, -⟩ := Transcript.serve_spec calls
    _ (Transcript.served_start tokenizer policy raw preserveSpecialTokens
      startsInReasoning hstops) hcalls hstream
  refine ⟨t, hserve, ?_⟩
  intro stop hmem _ i hocc
  by_cases hstring : t.reason = .stopString
  · have hended := hserved.ended
    rw [hstring] at hended
    obtain ⟨c, start, decl, winner, hcut⟩ := hended
    obtain ⟨hon, hincluded, hend, hstart⟩ := hcut.occursAt_inside
      hmem (hstops stop hmem)
      (hstops winner (mem_of_getElem? hcut.best.declared)) hocc
    exact .inl ⟨hstring, start, decl, winner, hon ▸ hcut.best, hincluded,
      hstart, hend⟩
  by_cases hnone : t.reason = .none
  · -- Nothing is over yet: what is out was searched.
    exfalso
    have hlistening := (hserved.going hnone).2
    have hfed := hlistening.routed.fed stop.channel
    have hlonger := hocc.append (hstops stop hmem)
      (t.session.state.stopPending stop.channel)
    rw [hfed] at hlonger
    exact hlistening.unstopped stop.channel stop.text
      ⟨stop, hmem, rfl, rfl⟩ i hlonger
  · refine Or.inr ⟨hnone, hstring, ?_⟩
    have htexts := (hserved.ended.flushed_texts hstring hnone).2
    have hfront := searchedText_prefix_channelText starts
      (s.streamText (s.shownAt t.reason t.accepted))
      (flushed ((s.streamBytes (s.shownAt t.reason t.accepted)).drop
        (s.streamText (s.shownAt t.reason t.accepted)).length))
      stop.channel
    by_contra hinside
    have htake := hocc.take (Nat.le_of_not_lt hinside)
    rw [htexts, SessionOptions.accumulated] at htake
    unfold SessionOptions.finalText at htake
    rw [← prefix_iff_eq_take.mp hfront] at htake
    exact hserved.shown_unstopped hstring hnone stop.channel stop.text
      ⟨stop, hmem, rfl, rfl⟩ i htake

/-- `lo` ends the content and is kept; `o` ends it and is not. -/
def stopAtLoOrO : StopPolicy :=
  ⟨[], [⟨[0x6c, 0x6f], .content, true⟩, ⟨[0x6f], .content, false⟩], false⟩

/-- The round `hello!`. -/
def helloRound : SessionCall := .round helloTokens 8 .outputLimit

theorem helloRound_admitted : ∀ c ∈ [helloRound], c.Admitted := by
  intro c hc
  rw [mem_singleton.mp hc]
  exact ⟨by decide, by decide, Or.inl rfl⟩

/-- `hello!` publishes `hello`: the kept `lo` starts before the excluded
`o` inside it. -/
theorem excluded_stop_inside_included :
    ¬ ∀ (tokenizer : Tokenizer) (policy : StopPolicy)
        (raw preserveSpecialTokens startsInReasoning : Bool)
        (calls : List SessionCall),
        (∀ stop ∈ policy.strings, stop.text ≠ []) →
        (∀ c ∈ calls, c.Admitted) →
        SessionOptions.WellFormed
          ⟨tokenizer, policy, raw || preserveSpecialTokens⟩
          (calls.flatMap SessionCall.tokens) →
        ∀ t, Transcript.serve (.start (.make tokenizer policy raw
            preserveSpecialTokens startsInReasoning)) calls = .ok t →
          ∀ stop ∈ policy.strings, stop.includeInOutput = false →
            ∀ i, ¬ OccursAt stop.text (t.published stop.channel) i := by
  intro h
  have hrun : (Transcript.serve (.start (.make asciiTokenizer stopAtLoOrO
      false false false)) [helloRound]).map (Transcript.published · .content)
      = .ok [0x68, 0x65, 0x6c, 0x6c, 0x6f] := rfl
  cases hserve : Transcript.serve (.start (.make asciiTokenizer stopAtLoOrO
      false false false)) [helloRound] with
  | error e =>
    rw [hserve] at hrun
    cases hrun
  | ok t =>
    rw [hserve] at hrun
    have htext : t.published .content = [0x68, 0x65, 0x6c, 0x6c, 0x6f] := by
      simpa [Except.map] using hrun
    refine h asciiTokenizer stopAtLoOrO false false false [helloRound]
      (by decide) helloRound_admitted (helloTokens_wellFormed stopAtLoOrO)
      t hserve ⟨[0x6f], .content, false⟩ (by simp [stopAtLoOrO]) rfl 4 ?_
    rw [htext]
    exact ⟨[], rfl⟩

/-- `hello!`, stopped at an excluded `lo`: no `lo` is out. -/
theorem excluded_stops_run_hello :
    ∃ t : Transcript,
      Transcript.serve (.start (.make asciiTokenizer stopAtLo false false
          false)) [helloRound] = .ok t
        ∧ t.reason = .stopString
        ∧ ∀ i, ¬ OccursAt [0x6c, 0x6f] (t.published .content) i := by
  obtain ⟨t, hserve, hall⟩ := excluded_stops_run asciiTokenizer stopAtLo
    false false false [helloRound] (by decide) helloRound_admitted
    (helloTokens_wellFormed stopAtLo)
  have hrun : (Transcript.serve (.start (.make asciiTokenizer stopAtLo
      false false false)) [helloRound]).map (·.reason)
      = .ok .stopString := rfl
  rw [hserve] at hrun
  have hreason : t.reason = .stopString := by
    simpa [Except.map] using hrun
  refine ⟨t, hserve, hreason, ?_⟩
  intro i hocc
  rcases hall ⟨[0x6c, 0x6f], .content, false⟩ (by simp [stopAtLo]) rfl i
      hocc with ⟨-, start, decl, winner, hbest, hincluded, -⟩ | ⟨-, hnot, -⟩
  · have hwinner := mem_of_getElem? hbest.declared
    simp only [stopAtLo, mem_singleton] at hwinner
    rw [hwinner] at hincluded
    cases hincluded
  · exact hnot hreason

-- ============ reasoning, content

/-- The batch split of a text that starts in reasoning. -/
def splitReasoning (text : Bytes) : OutputChannel → Bytes
  | .reasoning =>
    match find text thinkClose with
    | some i => text.take i
    | none => text
  | .content =>
    match find text thinkClose with
    | some i => (text.drop (i + thinkClose.length)).dropWhile isSpace
    | none => []

/-- A staged output has at most one delta of each channel. -/
theorem Staged.one_each {r : Bool} {out : PublishedOutput}
    (h : Staged r out) (c : OutputChannel) :
    (out.filter fun d => d.channel = c).length ≤ 1 := by
  have hstaged : Staged false out := by
    cases r with
    | false => exact h
    | true => exact h.weaken
  rcases hstaged with rfl | ⟨ch, text, rfl⟩ | ⟨text, content, rfl⟩
  · exact Nat.zero_le _
  · exact length_filter_le _ _
  · cases c with
    | content => exact Nat.le_refl 1
    | reasoning => exact Nat.le_refl 1

/-- Without stop strings, a generation that starts in reasoning publishes
the batch split of its decoded text, however the tokens divide it, at
most one delta a channel in each commit. -/
theorem reasoning_split_run (tokenizer : Tokenizer) (policy : StopPolicy)
    (preserveSpecialTokens : Bool) (calls : List SessionCall)
    (hstrings : policy.strings = []) (hcalls : ∀ c ∈ calls, c.Admitted)
    (hstream : SessionOptions.WellFormed
      ⟨tokenizer, policy, preserveSpecialTokens⟩
      (calls.flatMap SessionCall.tokens)) :
    let s : SessionOptions := ⟨tokenizer, policy, preserveSpecialTokens⟩
    ∃ t : Transcript,
      Transcript.serve (.start (.make tokenizer policy false
          preserveSpecialTokens true)) calls = .ok t
        ∧ (∀ out ∈ t.commits, ∀ c, (out.filter fun d => d.channel = c).length ≤ 1)
        ∧ (t.reason ≠ .none → ∀ text,
            s.streamBytes (s.shownAt t.reason t.accepted) = encode text →
            ∀ c, t.published c = splitReasoning (encode text) c) := by
  intro s
  have hnostops : ∀ stop ∈ policy.strings, stop.text ≠ [] := by
    rw [hstrings]
    simp
  have hfirst := Transcript.served_start tokenizer policy false
    preserveSpecialTokens true hnostops
  obtain ⟨t, hserve, hserved, -, -⟩ :=
    Transcript.serve_spec calls _ hfirst hcalls hstream
  have hstring : t.reason ≠ .stopString := by
    intro hreason
    obtain ⟨stop, hmem, -⟩ := hserved.reason_iff.mp hreason
    change stop ∈ policy.strings at hmem
    rw [hstrings] at hmem
    cases hmem
  refine ⟨t, hserve, ?_, ?_⟩
  · intro out hout c
    rcases hserved.staged with hreason | hall
    · exact absurd hreason hstring
    · obtain ⟨r, hst⟩ := hall out hout
      exact hst.one_each c
  · intro hnone text hbytes c
    have htexts := (hserved.ended.flushed_texts hstring hnone).2 c
    change t.published c = channelText true
      (s.finalText (s.shownAt t.reason t.accepted)) c at htexts
    rw [htexts, SessionOptions.finalText_encode hbytes]
    cases c with
    | content => rfl
    | reasoning => rfl

/-- `x</think>y`, the marker divided between two rounds, cancelled after
them. -/
theorem reasoning_split_run_divided_marker :
    ∃ t : Transcript,
      Transcript.serve (.start (.make asciiTokenizer noStops false false true))
          [.round [0x78, 0x3c, 0x2f, 0x74, 0x68] 32 .outputLimit,
            .round [0x69, 0x6e, 0x6b, 0x3e, 0x79] 27 .outputLimit,
            .terminal .cancelled] = .ok t
        ∧ t.published .reasoning = [0x78]
        ∧ t.published .content = [0x79] := by
  obtain ⟨t, hserve, -, hsplit⟩ := reasoning_split_run asciiTokenizer
    noStops false
    [.round [0x78, 0x3c, 0x2f, 0x74, 0x68] 32 .outputLimit,
      .round [0x69, 0x6e, 0x6b, 0x3e, 0x79] 27 .outputLimit,
      .terminal .cancelled]
    rfl
    (by
      intro c hc
      simp only [mem_cons, not_mem_nil, or_false] at hc
      rcases hc with rfl | rfl | rfl
      · exact ⟨by decide, by decide, Or.inl rfl⟩
      · exact ⟨by decide, by decide, Or.inl rfl⟩
      · exact ⟨by decide, by decide, by decide⟩)
    (SessionOptions.wellFormed_of_bytes
      ['x', '<', '/', 't', 'h', 'i', 'n', 'k', '>', 'y'] rfl rfl rfl)
  have hrun : (Transcript.serve (.start (.make asciiTokenizer noStops
      false false true))
      [.round [0x78, 0x3c, 0x2f, 0x74, 0x68] 32 .outputLimit,
        .round [0x69, 0x6e, 0x6b, 0x3e, 0x79] 27 .outputLimit,
        .terminal .cancelled]).map (fun t => (t.reason, t.accepted))
      = .ok (.cancelled,
          [0x78, 0x3c, 0x2f, 0x74, 0x68, 0x69, 0x6e, 0x6b, 0x3e, 0x79]) :=
    rfl
  rw [hserve] at hrun
  simp only [Except.map, Except.ok.injEq, Prod.mk.injEq] at hrun
  obtain ⟨hreason, haccepted⟩ := hrun
  have htexts := hsplit (by rw [hreason]; decide)
    ['x', '<', '/', 't', 'h', 'i', 'n', 'k', '>', 'y']
    (by rw [hreason, haccepted]; rfl)
  exact ⟨t, hserve, htexts .reasoning, htexts .content⟩

end Ginfer.Frontend
