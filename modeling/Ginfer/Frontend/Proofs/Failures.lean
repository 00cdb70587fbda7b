/-
When a session throws, and that it can.

The scanner under `feed_token_bytes` throws on bytes that no well-formed
UTF-8 continues, and a byte-level vocabulary lets a model sample such
bytes. `feedRounds_returns_iff` says this is the whole story: over
in-vocabulary tokens within the budget a session returns a decision for
every round EXACTLY when every token it reads passes the scanner — the
bytes still pending, followed by the token's own. Tokens after the one
that finishes the session are not read and do not matter.

`lone_continuation_throws` is the failing input: one byte-level token of
the byte 0x80. The throw leaves `preview`, the worker's decode round and
the worker loop's catch, which fails every request of the engine. The
same bytes cut off by the token budget are published as U+FFFD
(`terminalize`), so an ill-formed suffix is foreseen at the END of a
generation and only there.
-/
import Ginfer.Frontend.Proofs.Transcript

namespace Ginfer.Frontend

open Ginfer.Lib List

namespace Tokenizer

/-- Ordinary tokens are strings over the byte-level alphabet. -/
def ByteLevel (t : Tokenizer) : Prop :=
  ∀ id codepoints, t.idToToken id = some (.ordinary codepoints) →
    ∀ c ∈ codepoints, (byteLevelDecoder c).isSome = true

/-- A string over the byte-level alphabet decodes. -/
theorem decodeSymbols_ok (id : TokenId) :
    ∀ codepoints : List Nat,
      (∀ c ∈ codepoints, (byteLevelDecoder c).isSome = true) →
      ∃ bytes, decodeSymbols id codepoints = .ok bytes := by
  intro codepoints
  induction codepoints with
  | nil => intro _; exact ⟨[], rfl⟩
  | cons c rest ih =>
    intro h
    obtain ⟨b, hb⟩ := Option.isSome_iff_exists.mp (h c (.head _))
    obtain ⟨bytes, hbytes⟩ :=
      ih fun d hd => h d (.tail _ hd)
    refine ⟨b :: bytes, ?_⟩
    rw [decodeSymbols, hb]
    simp only
    rw [hbytes]
    rfl

/-- Every in-vocabulary token of a byte-level vocabulary decodes. -/
theorem decodeTokenBytes_ok {t : Tokenizer} (h : t.ByteLevel)
    {id : TokenId} (hvalid : t.isValidToken id = true) (skip : Bool) :
    ∃ bytes, t.decodeTokenBytes id skip = .ok bytes := by
  unfold isValidToken at hvalid
  obtain ⟨e, he⟩ := Option.isSome_iff_exists.mp hvalid
  have hid : ¬ id < 0 := by
    intro hneg
    rw [entry, if_pos hneg] at he
    cases he
  unfold decodeTokenBytes
  split
  · exact ⟨[], rfl⟩
  rw [he]
  cases e with
  | added content special => exact ⟨content, rfl⟩
  | ordinary codepoints =>
    rw [entry, if_neg hid] at he
    exact decodeSymbols_ok id codepoints (h id.toNat codepoints he)

end Tokenizer

namespace SessionOptions

/-- Every token the session reads from `state` on passes the scanner:
the pending bytes, followed by the token's own, are accepted. The session
reads on for as long as no token finishes it. -/
def ScansThrough (s : SessionOptions) : DecoderState → List TokenId → Prop
  | _, [] => True
  | state, token :: rest =>
    (∀ bytes,
      s.tokenizer.decodeTokenBytes token (!s.preserveSpecial) = .ok bytes →
        ∃ valid, validUtf8PrefixSize (state.utf8Pending ++ bytes) = .ok valid)
    ∧ ∀ st o, s.previewToken 1 state [] token = .ok (.next st o) →
        ScansThrough s st rest

/-- The tokens are in a byte-level vocabulary. -/
def InVocabulary (s : SessionOptions) (tokens : List TokenId) : Prop :=
  s.tokenizer.ByteLevel ∧ ∀ t ∈ tokens, s.tokenizer.isValidToken t = true

variable {s : SessionOptions} {state : DecoderState} {token : TokenId}

variable (htok : s.tokenizer.ByteLevel)
  (hvalid : s.tokenizer.isValidToken token = true)

include htok hvalid

/-- For an in-vocabulary token, to be readable is to pass the scanner. -/
theorem readable_iff : s.Readable state token
      ↔ ∀ bytes,
        s.tokenizer.decodeTokenBytes token (!s.preserveSpecial) = .ok bytes →
          ∃ valid, validUtf8PrefixSize (state.utf8Pending ++ bytes)
            = .ok valid := by
  obtain ⟨bytes, hbytes⟩ :=
    Tokenizer.decodeTokenBytes_ok htok hvalid (!s.preserveSpecial)
  constructor
  · rintro ⟨-, bs, valid, hbs, hscan⟩ bs' hbs'
    rw [hbs] at hbs'
    cases hbs'
    exact ⟨valid, hscan⟩
  · intro h
    obtain ⟨valid, hscan⟩ := h bytes hbytes
    exact ⟨hvalid, bytes, valid, hbytes, hscan⟩

/-- A token that went on hands the scan to the decoder it left. -/
theorem scansThrough_cons_next {st : DecoderState}
    {o : PublishedOutput} {rest : List TokenId}
    (hstep : s.previewToken 1 state [] token = .ok (.next st o)) :
    s.ScansThrough state (token :: rest) ↔ s.ScansThrough st rest := by
  constructor
  · rintro ⟨-, hrest⟩
    exact hrest st o hstep
  · intro hrest
    refine ⟨(readable_iff htok hvalid).mp (readable_of_previewToken hstep), ?_⟩
    intro st' o' hstep'
    rw [hstep] at hstep'
    cases hstep'
    exact hrest

/-- A token that finished ends the scan. -/
theorem scansThrough_cons_finish {st : DecoderState} {o : PublishedOutput}
    {r : FinishReason} {rest : List TokenId}
    (hstep : s.previewToken 1 state [] token = .ok (.finish st o r)) :
    s.ScansThrough state (token :: rest) := by
  refine ⟨(readable_iff htok hvalid).mp (readable_of_previewToken hstep), ?_⟩
  intro st' o' hstep'
  rw [hstep] at hstep'
  cases hstep'

omit htok hvalid

/-- The loop over a round, against the scan of its tokens and whatever
`more` follows: a throw fails the scan, a finish ends it, and a loop that
goes on hands it to the decoder it left. -/
inductive LoopScan (s : SessionOptions) (budget count : Nat)
    (state : DecoderState) (tokens : List TokenId) :
    Except Exception (DecoderState × PublishedOutput × OutputDecision) →
      Prop where
  | throws (e : Exception) (h : ∀ more, ¬ s.ScansThrough state (tokens ++ more)) :
      LoopScan s budget count state tokens (.error e)
  | finishes (state' : DecoderState) (output : PublishedOutput)
      (d : OutputDecision) (hd : d.finished = true)
      (h : ∀ more, count + (tokens ++ more).length ≤ budget →
        s.ScansThrough state (tokens ++ more)) :
      LoopScan s budget count state tokens (.ok (state', output, d))
  | goesOn (state' : DecoderState) (output : PublishedOutput)
      (d : OutputDecision) (hd : d.finished = false)
      (haccepted : d.acceptedTokens = count + tokens.length)
      (hterm : state'.terminal = state.terminal)
      (h : ∀ more, s.ScansThrough state (tokens ++ more)
        ↔ s.ScansThrough state' more) :
      LoopScan s budget count state tokens (.ok (state', output, d))

theorem previewLoop_scan (budget : Nat)
    {limit : FinishReason} (hlimit : OutputSession.LimitReason limit)
    (htok : s.tokenizer.ByteLevel) :
    ∀ (tokens : List TokenId) (count : Nat) (state : DecoderState)
      (output : PublishedOutput),
      (∀ t ∈ tokens, s.tokenizer.isValidToken t = true) →
      Staged state.inReasoning output →
      LoopScan s budget count state tokens
        (s.previewLoop budget limit count state output tokens) := by
  intro tokens
  induction tokens with
  | nil =>
    intro count state output _ hstaged
    rw [previewLoop]
    split
    · next hcount =>
      have htwin : Twin (fun _ => []) state.inReasoning output output :=
        ⟨hstaged, hstaged, fun _ => rfl⟩
      obtain ⟨st, e, -, he, -, -⟩ :=
        terminalize_twin s.policy count count htwin
      rw [he]
      refine .finishes st e _ ?_ ?_
      · rcases hlimit with h | h <;> rw [h] <;> rfl
      · -- the budget is used up, so nothing follows
        intro more hmore
        have hnil : more = [] := by
          rw [nil_append] at hmore
          exact length_eq_zero_iff.mp (by omega)
        rw [hnil]
        trivial
    · exact .goesOn state output _ rfl rfl rfl fun _ => Iff.rfl
  | cons token rest ih =>
    intro count state output hvocab hstaged
    have hvalid := hvocab token (.head _)
    rw [previewLoop]
    cases hstep : s.previewToken (count + 1) state output token with
    | error e =>
      refine .throws e ?_
      rintro more ⟨hscan, -⟩
      obtain ⟨x, -, hx, -, -⟩ := previewToken_twin s
        (fun _ => []) (count + 1) (count + 1)
        ((readable_iff htok hvalid).mpr hscan)
        ⟨hstaged, hstaged, fun _ => rfl⟩
      rw [hstep] at hx
      cases hx
    | ok step =>
      cases step with
      | finish st o r =>
        obtain ⟨o₂, h₂, hr, -⟩ :=
          previewToken_alone_finish hstaged hstep
        refine .finishes st o _ ?_ ?_
        · simpa [OutputDecision.finished] using hr
        · intro more _
          exact scansThrough_cons_finish htok hvalid h₂
      | next st o =>
        obtain ⟨o₂, h₂, htwin, hterm⟩ :=
          previewToken_alone_next hstaged hstep
        have hrest := ih (count + 1) st o (fun t ht => hvocab t (.tail _ ht))
          htwin.staged₁
        have hcons : ∀ more,
            s.ScansThrough state (token :: rest ++ more)
              ↔ s.ScansThrough st (rest ++ more) :=
          fun more => scansThrough_cons_next htok hvalid h₂
        simp only
        generalize s.previewLoop budget limit (count + 1) st o rest = x
          at hrest ⊢
        cases hrest with
        | throws e h =>
          exact .throws e fun more hs =>
            h more ((hcons more).mp hs)
        | finishes st' o' d hd h =>
          refine .finishes st' o' d hd fun more hmore => ?_
          refine (hcons more).mpr (h more ?_)
          simp only [cons_append, length_cons] at hmore
          omega
        | goesOn st' o' d hd hacc hterm' h =>
          refine .goesOn st' o' d hd ?_ (hterm'.trans hterm)
            fun more => (hcons more).trans (h more)
          rw [hacc, length_cons]
          omega

end SessionOptions

open SessionOptions OutputSession

/-- Between rounds, a session returns a decision for every round exactly
when every token it reads passes the scanner. -/
theorem feedRounds_resume_iff {s : OutputSession} {limit : FinishReason}
    (hlimit : LimitReason limit) :
    ∀ (rounds : List (List TokenId)) (state : DecoderState) (budget : Nat),
      state.terminal = false → (∀ round ∈ rounds, round ≠ []) →
      rounds.flatten.length ≤ budget →
      s.InVocabulary rounds.flatten →
      ((∃ r, feedRounds limit (s.resume state) budget rounds = .ok r)
        ↔ s.ScansThrough state rounds.flatten) := by
  intro rounds
  induction rounds with
  | nil =>
    intro state budget _ _ _ _
    exact iff_of_true ⟨_, rfl⟩ trivial
  | cons round rest ih =>
    intro state budget hterm hne hbudget hvocab
    obtain ⟨htok, hvalid⟩ := hvocab
    rw [flatten_cons] at hbudget hvalid ⊢
    rw [length_append] at hbudget
    have hround : round ≠ [] := hne round (.head _)
    have hscan := previewLoop_scan (s := s.toSessionOptions) budget
      hlimit htok round 0 state []
      (fun t ht => hvalid t (mem_append_left _ ht)) (Staged.nil _)
    generalize hloop : s.previewLoop budget limit 0 state [] round = x at hscan
    cases hscan with
    | throws e h =>
      refine iff_of_false ?_ (h rest.flatten)
      rintro ⟨r, hr⟩
      rw [feedRounds, preview_resume hterm hround (by omega) hlimit, hloop] at hr
      cases hr
    | finishes st o d hd h =>
      refine iff_of_true ?_ (h rest.flatten (by rw [length_append]; omega))
      rw [feedRounds_resume hterm hround (by omega) hlimit hloop, if_pos hd]
      exact ⟨_, rfl⟩
    | goesOn st o d hd hacc hterm' h =>
      rw [zero_add] at hacc
      rw [h rest.flatten, ← ih st (budget - d.acceptedTokens) (hterm'.trans hterm)
        (fun r hr => hne r (.tail _ hr)) (by omega)
        ⟨htok, fun t ht => hvalid t (mem_append_right _ ht)⟩,
        feedRounds_resume hterm hround (by omega) hlimit hloop,
        if_neg (by simp [hd])]
      cases feedRounds limit (s.resume st) (budget - d.acceptedTokens)
          rest with
      | error e => simp [Except.map]
      | ok r => simp [Except.map]

/-- A new session over in-vocabulary tokens within the budget returns a
decision for every round exactly when every token it reads passes the
scanner. -/
theorem feedRounds_returns_iff (tokenizer : Tokenizer) (policy : StopPolicy)
    (raw preserveSpecialTokens startsInReasoning : Bool)
    (limit : FinishReason) (hlimit : LimitReason limit) (budget : Nat)
    (rounds : List (List TokenId)) (hne : ∀ round ∈ rounds, round ≠ [])
    (hbudget : rounds.flatten.length ≤ budget) (htok : tokenizer.ByteLevel)
    (hvalid : ∀ t ∈ rounds.flatten, tokenizer.isValidToken t = true) :
    (∃ r, feedRounds limit
        (.make tokenizer policy raw preserveSpecialTokens
          startsInReasoning) budget rounds = .ok r)
      ↔ SessionOptions.ScansThrough
          ⟨tokenizer, policy, raw || preserveSpecialTokens⟩
          (.start (startsInReasoning && !raw)) rounds.flatten :=
  feedRounds_resume_iff (s := .make tokenizer policy raw
      preserveSpecialTokens startsInReasoning) hlimit rounds
    (.start (startsInReasoning && !raw)) budget rfl hne hbudget
    ⟨htok, hvalid⟩

-- ============ over the decoded bytes

namespace SessionOptions

/-- The tokens that are read pass the scanner, each behind the bytes of
those before it: tokens are read until a stop string occurs in the text or
a stop token has come. -/
def BytesScan (s : SessionOptions) (starts : Bool) :
    List TokenId → List TokenId → Prop
  | _, [] => True
  | read, token :: rest =>
    s.Scans (read ++ [token])
      ∧ (s.Unstopped starts (read ++ [token]) → token ∉ s.policy.tokenIds →
        s.BytesScan starts (read ++ [token]) rest)

variable {s : SessionOptions}

/-- A session goes on after a token that is no stop token, and ends at a
stop token only for its reason. -/
theorem previewToken_tokenIds {count : Nat} {state : DecoderState}
    {output : PublishedOutput} {token : TokenId} {step : TokenStep}
    (h : s.previewToken count state output token = .ok step) :
    match step with
    | .next _ _ => token ∉ s.policy.tokenIds
    | .finish _ _ reason => reason = .stopToken → token ∈ s.policy.tokenIds := by
  unfold previewToken at h
  split at h
  · cases h
  dsimp only at h
  split at h
  · cases h
  split at h
  · cases h
  split at h
  · cases h
    exact nofun
  split at h
  · next hmem =>
    unfold finishOnStopToken at h
    dsimp only at h
    split at h
    · cases h
    · cases h
      exact fun _ => hmem
  · next hnot =>
    cases h
    exact hnot

/-- To step through a session without empty stop strings is to follow the
decoded text. -/
theorem scansThrough_iff_bytesScan (htok : s.tokenizer.ByteLevel)
    {starts : Bool} :
    ∀ (rest read : List TokenId) (st : DecoderState)
      (published : OutputChannel → Bytes),
      s.Listening starts read st published → s.Scans read →
      (∀ t ∈ rest, s.tokenizer.isValidToken t = true) →
      (s.ScansThrough st rest ↔ s.BytesScan starts read rest) := by
  intro rest
  induction rest with
  | nil =>
    intro read st published _ _ _
    exact Iff.rfl
  | cons token rest ih =>
    intro read st published h hscans hvocab
    have hvalid := hvocab token (.head _)
    obtain ⟨bytes, hbytes⟩ :=
      Tokenizer.decodeTokenBytes_ok htok hvalid (!s.preserveSpecial)
    have htoken : s.tokenBytes token = bytes := by
      unfold tokenBytes
      rw [hbytes]
    have hreads : (∀ bs, s.tokenizer.decodeTokenBytes token
          (!s.preserveSpecial) = .ok bs →
          ∃ valid, validUtf8PrefixSize (st.utf8Pending ++ bs) = .ok valid)
        ↔ s.Scans (read ++ [token]) := by
      unfold Scans
      rw [scan_append h.pending hscans, htoken, hbytes]
      cases hscan : validUtf8PrefixSize (st.utf8Pending ++ bytes) with
      | error e => simp [Except.map, hscan]
      | ok n => simp [Except.map, hscan]
    unfold ScansThrough BytesScan
    rw [hreads]
    refine and_congr_right fun hnext => ?_
    have hbase : s.Listening starts read st
        fun c => published c ++ textOn c [] := by
      simpa only [textOn_nil, append_nil] using h
    obtain ⟨step, hstep, hspec⟩ :=
      previewToken_spec 1 hbase (.nil _) hscans hnext hvalid hbytes
    have hids := previewToken_tokenIds hstep
    rw [hstep]
    cases step with
    | next st' o =>
      have hiff := ih _ st' _ hspec.1 hnext
        fun t ht => hvocab t (.tail _ ht)
      constructor
      · intro hall _ _
        exact hiff.mp (hall st' o rfl)
      · intro hall st o heq
        cases heq
        exact hiff.mpr (hall hspec.1.unstopped hids)
    | finish st' o reason =>
      refine iff_of_true nofun fun hclear hnot => ?_
      rcases hspec.2 with rfl | ⟨rfl, -⟩
      · obtain ⟨c, start, decl, stop, hcut⟩ := hspec.1
        exact absurd (find_eq_some hcut.best.found).1 (hclear c _
          ⟨stop, mem_of_getElem? hcut.best.declared, hcut.best.on, rfl⟩
          start)
      · exact absurd (hids rfl) hnot

end SessionOptions

/-- No empty stop string gets into a session (`merge_stop_policy`), so what
`feedRounds_returns_iff` asks is a condition on the decoded bytes. -/
theorem scansThrough_start (tokenizer : Tokenizer)
    (policy : StopPolicy) (raw preserveSpecialTokens startsInReasoning : Bool)
    (tokens : List TokenId) (htok : tokenizer.ByteLevel)
    (hvalid : ∀ t ∈ tokens, tokenizer.isValidToken t = true)
    (hstops : ∀ stop ∈ policy.strings, stop.text ≠ []) :
    SessionOptions.ScansThrough
        ⟨tokenizer, policy, raw || preserveSpecialTokens⟩
        (.start (startsInReasoning && !raw)) tokens
      ↔ SessionOptions.BytesScan
          ⟨tokenizer, policy, raw || preserveSpecialTokens⟩
          (startsInReasoning && !raw) [] tokens :=
  SessionOptions.scansThrough_iff_bytesScan htok tokens [] _ _
    ((Transcript.served_start tokenizer policy raw preserveSpecialTokens
      startsInReasoning hstops).going rfl).2 ⟨0, rfl⟩ hvalid

-- ============ the failing input

/-- A vocabulary of the 256 single bytes, each under its byte-level
symbol. -/
def byteTokenizer : Tokenizer where
  idToToken id :=
    if id < 256 then
      some (.ordinary
        [if Tokenizer.visible id then id
         else 256 + ((range id).filter
           fun b => !Tokenizer.visible b).length])
    else none

/-- No stop tokens, no stop strings. -/
def noStops : StopPolicy := ⟨[], [], false⟩

/-- Every id of the byte vocabulary is a byte-level string. -/
theorem byteTokenizer_byteLevel : byteTokenizer.ByteLevel := by
  have hall : ∀ id < 256, (Tokenizer.byteLevelDecoder
      (if Tokenizer.visible id then id
        else 256 + ((range id).filter
          fun b => !Tokenizer.visible b).length)).isSome = true := by
    decide +kernel
  intro id codepoints h c hc
  simp only [byteTokenizer] at h
  split at h
  · next hid =>
    cases h
    rw [mem_singleton] at hc
    subst hc
    exact hall id hid
  · cases h

/-- A session throws in its first round on the one token of the byte 0x80,
in the vocabulary, within the budget, without a stop policy. -/
theorem lone_continuation_throws :
    ¬ ∀ (tokenizer : Tokenizer) (policy : StopPolicy)
        (raw preserveSpecialTokens startsInReasoning : Bool)
        (limit : FinishReason) (budget : Nat)
        (rounds : List (List TokenId)),
        LimitReason limit → (∀ round ∈ rounds, round ≠ []) →
        rounds.flatten.length ≤ budget → tokenizer.ByteLevel →
        (∀ t ∈ rounds.flatten, tokenizer.isValidToken t = true) →
        ∃ r, feedRounds limit
          (.make tokenizer policy raw preserveSpecialTokens
            startsInReasoning) budget rounds = .ok r := by
  intro h
  obtain ⟨r, hr⟩ := h byteTokenizer noStops false false false .outputLimit
    16 [[0x80]] (Or.inl rfl) (by decide) (by decide)
    byteTokenizer_byteLevel (by decide)
  have hthrow : feedRounds .outputLimit
      (.make byteTokenizer noStops false false false) 16 [[0x80]]
        = .error (.invalidArgument
            "invalid UTF-8 leading byte in generated token stream") := rfl
  rw [hthrow] at hr
  cases hr

/-- A two-byte character split over two rounds is read through. -/
theorem feedRounds_returns_split_character :
    SessionOptions.ScansThrough ⟨byteTokenizer, noStops, false⟩
      (.start true) [0xc3, 0xa9, 0x21] :=
  (feedRounds_returns_iff byteTokenizer noStops false false true
    .outputLimit (Or.inl rfl) 16 [[0xc3], [0xa9, 0x21]] (by decide)
    (by decide) byteTokenizer_byteLevel (by decide)).mp
      ⟨⟨3, .none, [], [0xc3, 0xa9, 0x21], 3⟩, rfl⟩

end Ginfer.Frontend
