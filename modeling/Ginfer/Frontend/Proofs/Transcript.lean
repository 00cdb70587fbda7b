/-
A generation as its owner sees it: from the calls of the session to what
was published.

A generated token stream is `WellFormed` when its tokens are in the
vocabulary and their bytes begin a well-formed UTF-8 text. Over such a
stream:

- `previewToken_spec` — one token: it goes on with the decoder's
  invariants (`Listening`), or it ends the output at the winning stop
  string (`Cut`) or at a stop token;
- `previewLoop_spec`, `call_spec` — one round, one call;
- `serve_spec` — every run of calls returns, and `Served` holds of what
  it returns: no stop string occurred before the last token, and what was
  published is what the reason of the end calls for.
-/
import Ginfer.Frontend.Proofs.Routing
import Ginfer.Frontend.Proofs.Rounds
import Ginfer.Frontend.Proofs.Utf8

namespace Ginfer.Frontend

open Ginfer.Lib List

-- ============ the streams

namespace SessionOptions

/-- The bytes a generated token stands for. -/
def tokenBytes (s : SessionOptions) (token : TokenId) : Bytes :=
  match s.tokenizer.decodeTokenBytes token (!s.preserveSpecial) with
  | .ok bytes => bytes
  | .error _ => []

/-- The bytes of a token stream. -/
def streamBytes (s : SessionOptions) (tokens : List TokenId) : Bytes :=
  tokens.flatMap s.tokenBytes

/-- The decoded text of a token stream: its whole characters. -/
def streamText (s : SessionOptions) (tokens : List TokenId) : Bytes :=
  scannedText (s.streamBytes tokens)

/-- The text of a stream that ends here: an incomplete character at its
end is replaced. -/
def finalText (s : SessionOptions) (tokens : List TokenId) : Bytes :=
  s.streamText tokens
    ++ flushed ((s.streamBytes tokens).drop (s.streamText tokens).length)

/-- A token stream of the vocabulary whose bytes begin a well-formed
text. -/
structure WellFormed (s : SessionOptions) (tokens : List TokenId) :
    Prop where
  valid : ∀ token ∈ tokens, s.tokenizer.isValidToken token = true
  decodes : ∀ token ∈ tokens, ∃ bytes,
    s.tokenizer.decodeTokenBytes token (!s.preserveSpecial) = .ok bytes
  utf8 : ∃ text, s.streamBytes tokens <+: encode text

variable {s : SessionOptions}

theorem streamBytes_append (s : SessionOptions) (a b : List TokenId) :
    s.streamBytes (a ++ b) = s.streamBytes a ++ s.streamBytes b :=
  flatMap_append

/-- The beginning of a well-formed stream is one. -/
theorem WellFormed.left {a b : List TokenId}
    (h : s.WellFormed (a ++ b)) : s.WellFormed a where
  valid := fun t ht => h.valid t (mem_append_left b ht)
  decodes := fun t ht => h.decodes t (mem_append_left b ht)
  utf8 := by
    obtain ⟨text, htext⟩ := h.utf8
    rw [streamBytes_append] at htext
    exact ⟨text, (prefix_append _ _).trans htext⟩

variable {tokens : List TokenId}

/-- The bytes of a stream pass the scanner. -/
def Scans (s : SessionOptions) (tokens : List TokenId) : Prop :=
  ∃ n, validUtf8PrefixSize (s.streamBytes tokens) = .ok n

theorem WellFormed.scans (h : s.WellFormed tokens) : s.Scans tokens := by
  obtain ⟨text, htext⟩ := h.utf8
  obtain ⟨k, -, hscan, -⟩ := validUtf8PrefixSize_encoded text _ htext
  exact ⟨_, hscan⟩

/-- The scan returns the text. -/
theorem Scans.text (h : s.Scans tokens) :
    validUtf8PrefixSize (s.streamBytes tokens) = .ok (s.streamText tokens).length
      ∧ s.streamText tokens <+: s.streamBytes tokens := by
  obtain ⟨n, hscan⟩ := h
  have hle := (validUtf8PrefixSize_append hscan []).1
  unfold streamText scannedText
  rw [hscan]
  dsimp only
  rw [length_take, Nat.min_eq_left hle]
  exact ⟨rfl, take_prefix _ _⟩

/-- The decoder between two tokens of a stream. -/
structure Listening (s : SessionOptions) (starts : Bool)
    (tokens : List TokenId) (st : DecoderState)
    (published : OutputChannel → Bytes) : Prop where
  pending : s.streamText tokens ++ st.utf8Pending = s.streamBytes tokens
  going : st.terminal = false
  routed : Routed starts (s.streamText tokens) st published
  guarded : Guarded s.policy st published

/-- No stop string occurs in what was searched of the stream. -/
def Unstopped (s : SessionOptions) (starts : Bool)
    (tokens : List TokenId) : Prop :=
  ∀ c, Clear s.policy c (searchedText starts (s.streamText tokens) c)

variable {st : DecoderState} {starts : Bool}

theorem Listening.unstopped {published : OutputChannel → Bytes}
    (h : s.Listening starts tokens st published) :
    s.Unstopped starts tokens := by
  intro c
  rw [← h.routed.fed c]
  cases c with
  | content => exact h.guarded.content.clear
  | reasoning => exact h.guarded.clear

-- ============ one token

/-- Counting a token touches no text. -/
theorem Listening.countToken {published : OutputChannel → Bytes}
    (h : s.Listening starts tokens st published) :
    s.Listening starts tokens (countToken st) published
      ∧ (SessionOptions.countToken st).inReasoning = st.inReasoning := by
  unfold SessionOptions.countToken
  split
  · exact ⟨⟨h.pending, h.going, { h.routed with }, { h.guarded with }⟩, rfl⟩
  · exact ⟨h, rfl⟩

variable {token : TokenId}

/-- The scan goes on with a token where it waits. -/
theorem scan_append {pending : Bytes}
    (hpending : s.streamText tokens ++ pending = s.streamBytes tokens)
    (hscans : s.Scans tokens) :
    validUtf8PrefixSize (s.streamBytes (tokens ++ [token]))
      = (validUtf8PrefixSize (pending ++ s.tokenBytes token)).map
          ((s.streamText tokens).length + ·) := by
  obtain ⟨-, happend⟩ :=
    validUtf8PrefixSize_append hscans.text.1 (s.tokenBytes token)
  rw [← hpending, drop_left' rfl, hpending] at happend
  rw [streamBytes_append]
  simpa [streamBytes] using happend

/-- The bytes the scanner takes when a token arrives are what the token
adds to the text. -/
theorem scan_token {pending : Bytes}
    (hpending : s.streamText tokens ++ pending = s.streamBytes tokens)
    (hscans : s.Scans tokens) (hnext : s.Scans (tokens ++ [token])) :
    ∃ n, validUtf8PrefixSize (pending ++ s.tokenBytes token) = .ok n
      ∧ s.streamText (tokens ++ [token])
        = s.streamText tokens ++ (pending ++ s.tokenBytes token).take n
      ∧ s.streamText (tokens ++ [token]) ++ (pending ++ s.tokenBytes token).drop n
        = s.streamBytes (tokens ++ [token]) := by
  obtain ⟨hscan, hfront⟩ := hnext.text
  have happend := hscan.symm.trans (scan_append hpending hscans)
  cases hrest : validUtf8PrefixSize (pending ++ s.tokenBytes token) with
  | error e =>
    rw [hrest] at happend
    cases happend
  | ok n =>
    rw [hrest] at happend
    have hlength : (s.streamText (tokens ++ [token])).length
        = (s.streamText tokens).length + n := by
      simpa [Except.map] using happend
    have hwhole : s.streamBytes (tokens ++ [token])
        = s.streamText tokens ++ (pending ++ s.tokenBytes token) := by
      rw [streamBytes_append, ← hpending, append_assoc]
      simp [streamBytes]
    have htext : s.streamText (tokens ++ [token])
        = s.streamText tokens
          ++ (pending ++ s.tokenBytes token).take n := by
      rw [prefix_iff_eq_take.mp hfront, hlength, hwhole, take_length_add_append]
    refine ⟨n, rfl, htext, ?_⟩
    rw [htext, hwhole, append_assoc, take_append_drop]

/-- What a token's bytes lead to: the winning stop string of the whole
text, or none and the invariants are kept. -/
def TokenSearch (s : SessionOptions) (starts : Bool)
    (tokens : List TokenId) (base : OutputChannel → Bytes) (fed : Feed) :
    Prop :=
  ∃ m, fed.best = some m
    ∧ ((m.found = false ∧ s.Listening starts tokens fed.state (total base fed))
      ∨ (m.found = true ∧ ∃ c start decl stop,
          Cut s.policy (searchedText starts (s.streamText tokens))
            (fun ch => base ch ++ textOn ch m.output) c start decl stop))

variable {base : OutputChannel → Bytes} {output : PublishedOutput}

/-- `feed_token_bytes`. -/
theorem feedTokenBytes_spec (count : Nat)
    (h : s.Listening starts tokens st fun c => base c ++ textOn c output)
    (hst : Staged st.inReasoning output)
    (hscans : s.Scans tokens) (hnext : s.Scans (tokens ++ [token])) :
    ∃ fed, feedTokenBytes s.policy count (s.tokenBytes token)
        ⟨st, output, some .empty⟩ = .ok fed
      ∧ Staged fed.state.inReasoning fed.emitted
      ∧ TokenSearch s starts (tokens ++ [token]) base fed := by
  obtain ⟨n, hscan, htext, hpending⟩ := scan_token h.pending hscans hnext
  unfold feedTokenBytes
  dsimp only
  rw [hscan]
  dsimp only
  split
  · next hzero =>
    subst hzero
    rw [take_zero, append_nil] at htext
    refine ⟨_, rfl, hst, .empty, rfl, .inl ⟨rfl, ?_⟩⟩
    refine ⟨hpending, h.going, ?_, h.guarded.content,
      h.guarded.reasoning, h.guarded.clear⟩
    rw [htext]
    exact { h.routed with }
  · obtain ⟨st', hst'⟩ : ∃ st', st' = { st with
        utf8Pending := (st.utf8Pending ++ s.tokenBytes token).drop n } :=
      ⟨_, rfl⟩
    have hrouted : Routed starts (s.streamText tokens) st'
        (total base ⟨st', output, some .empty⟩) := by
      rw [hst']
      exact { h.routed with }
    have hguarded : Guarded s.policy st'
        (total base ⟨st', output, some .empty⟩) := by
      rw [hst']
      exact { h.guarded with }
    rw [← hst']
    obtain ⟨fed, hok, hdecodes⟩ := feedDecodedText_spec s.policy count
      ((st.utf8Pending ++ s.tokenBytes token).take n)
      (f := ⟨st', output, some .empty⟩) hrouted (by rw [hst']; exact hst)
      (by intro m hm; cases hm; rfl)
    rw [← htext] at hdecodes
    refine ⟨fed, hok, hdecodes.staged, ?_⟩
    obtain ⟨m, hm, hcases⟩ := hdecodes.search hguarded .empty rfl rfl
    refine ⟨m, hm, ?_⟩
    rcases hcases with ⟨hno, hguarded'⟩ | hcut
    · refine .inl ⟨hno, ?_, ?_, hdecodes.routed, hguarded'⟩
      · rw [hdecodes.frame.1, hst']
        exact hpending
      · rw [hdecodes.frame.2, hst']
        exact h.going
    · exact .inr hcut

/-- The tokens whose text a stop token lets through. -/
def shown (s : SessionOptions) (tokens : List TokenId) : List TokenId :=
  if s.policy.publishStopToken then tokens else tokens.dropLast

/-- What is published in the end, by the reason of the end. -/
def Ended (s : SessionOptions) (starts : Bool) (tokens : List TokenId)
    (published : OutputChannel → Bytes) : FinishReason → Prop
  | .none => True
  | .stopString => ∃ c start decl stop,
    Cut s.policy (searchedText starts (s.streamText tokens)) published c
      start decl stop
  | .stopToken => s.Unstopped starts tokens
    ∧ ∀ c, published c = channelText starts (s.finalText (s.shown tokens)) c
  | _ => s.Unstopped starts tokens
    ∧ ∀ c, published c = channelText starts (s.finalText tokens) c

/-- The terminal flush between two tokens. -/
theorem Listening.terminalize (count : Nat)
    (h : s.Listening starts tokens st fun c => base c ++ textOn c output)
    (hst : Staged st.inReasoning output) :
    ∃ st' out, terminalize s.policy count st output = .ok (st', out)
      ∧ Staged st'.inReasoning out
      ∧ ∀ c, base c ++ textOn c out
          = channelText starts (s.finalText tokens) c := by
  obtain ⟨st', out, hok, -, hst', htexts⟩ :=
    terminalize_spec s.policy count h.routed hst
  have hpending : (s.streamBytes tokens).drop
      (s.streamText tokens).length = st.utf8Pending := by
    rw [← h.pending, drop_left' rfl]
  refine ⟨st', out, hok, hst', ?_⟩
  unfold finalText
  rw [hpending]
  exact htexts

/-- What a step of the loop means for the output. -/
def StepSpec (s : SessionOptions) (starts : Bool) (tokens : List TokenId)
    (base : OutputChannel → Bytes) : TokenStep → Prop
  | .next st out =>
    s.Listening starts tokens st (fun c => base c ++ textOn c out)
      ∧ Staged st.inReasoning out
  | .finish st out reason =>
    s.Ended starts tokens (fun c => base c ++ textOn c out) reason
      ∧ (reason = .stopString ∨ reason = .stopToken ∧ Staged st.inReasoning out)

/-- One turn of `preview`'s loop. -/
theorem previewToken_spec (count : Nat)
    (h : s.Listening starts tokens st fun c => base c ++ textOn c output)
    (hst : Staged st.inReasoning output)
    (hscans : s.Scans tokens) (hnext : s.Scans (tokens ++ [token]))
    (hvalid : s.tokenizer.isValidToken token = true) {bytes : Bytes}
    (hbytes : s.tokenizer.decodeTokenBytes token (!s.preserveSpecial)
      = .ok bytes) :
    ∃ step, s.previewToken count st output token = .ok step
      ∧ s.StepSpec starts (tokens ++ [token]) base step := by
  obtain ⟨hcounted, hmode⟩ := h.countToken
  rw [← hmode] at hst
  obtain ⟨fed, hfed, hst', m, hm, hcases⟩ :=
    feedTokenBytes_spec count hcounted hst hscans hnext
  have htoken : s.tokenBytes token = bytes := by
    unfold tokenBytes
    rw [hbytes]
  rw [htoken] at hfed
  unfold previewToken
  rw [hvalid, hbytes]
  simp only [Bool.not_true, Bool.false_eq_true, if_false]
  rw [hfed]
  dsimp only
  rcases hcases with ⟨hno, hlistening⟩ | ⟨hyes, hcut⟩
  · have hfilter : fed.best.filter (·.found) = none := by
      rw [hm]
      simp [hno]
    rw [hfilter]
    dsimp only
    split
    · -- A stop token: the flush of the decoder after it, or before it.
      unfold finishOnStopToken
      by_cases hpublish : s.policy.publishStopToken = true
      · obtain ⟨st₁, out, hok, hst₁, htexts⟩ :=
          hlistening.terminalize count hst'
        rw [if_pos hpublish, hok]
        refine ⟨_, rfl, ⟨hlistening.unstopped, ?_⟩, .inr ⟨rfl, hst₁⟩⟩
        unfold shown
        rw [if_pos hpublish]
        exact htexts
      · obtain ⟨st₁, out, hok, hst₁, htexts⟩ :=
          hcounted.terminalize count hst
        rw [if_neg hpublish, hok]
        refine ⟨_, rfl, ⟨hlistening.unstopped, ?_⟩, .inr ⟨rfl, hst₁⟩⟩
        unfold shown
        rw [if_neg hpublish, dropLast_concat]
        exact htexts
    · exact ⟨_, rfl, hlistening, hst'⟩
  · have hfilter : fed.best.filter (·.found) = some m := by
      rw [hm]
      simp [hyes]
    rw [hfilter]
    exact ⟨_, rfl, hcut, .inl rfl⟩

-- ============ one round

/-- What a round from `tokens` on comes to: it takes the tokens `taken`
of `rest`, and no stop string occurs before the last of them. -/
structure Takes (s : SessionOptions) (starts : Bool)
    (tokens rest : List TokenId) (base : OutputChannel → Bytes)
    (st : DecoderState) (out : PublishedOutput) (reason : FinishReason)
    (taken : List TokenId) : Prop where
  part : taken <+: rest
  before : ∀ n < taken.length, s.Unstopped starts (tokens ++ taken.take n)
  going : reason = .none → taken = rest
    ∧ s.Listening starts (tokens ++ rest) st (fun c => base c ++ textOn c out)
  ended : s.Ended starts (tokens ++ taken)
    (fun c => base c ++ textOn c out) reason
  staged : reason = .stopString ∨ Staged st.inReasoning out

/-- `preview`'s loop. -/
theorem previewLoop_spec {budget : Nat} {limit : FinishReason}
    (hlimit : OutputSession.LimitReason limit)
    :
    ∀ (rest tokens : List TokenId) (count : Nat) (st : DecoderState)
      (output : PublishedOutput),
      s.Listening starts tokens st (fun c => base c ++ textOn c output) →
      Staged st.inReasoning output → s.WellFormed (tokens ++ rest) →
      ∃ st' out d taken,
        s.previewLoop budget limit count st output rest = .ok (st', out, d)
        ∧ d.acceptedTokens = count + taken.length
        ∧ s.Takes starts tokens rest base st' out d.finishReason taken := by
  intro rest
  induction rest with
  | nil =>
    intro tokens count st output h hst _
    have hfirst : ∀ n < ([] : List TokenId).length,
        s.Unstopped starts (tokens ++ [].take n) :=
      fun _ hn => absurd hn (Nat.not_lt_zero _)
    unfold previewLoop
    by_cases hbudget : count = budget
    · -- The budget is used up: the limit ends the output.
      obtain ⟨st', out, hok, hst', htexts⟩ := h.terminalize count hst
      rw [if_pos hbudget, hok]
      refine ⟨st', out, ⟨count, limit⟩, [], rfl, rfl, prefix_rfl,
        hfirst, ?_, ?_, .inr hst'⟩
      · intro hnone
        change limit = .none at hnone
        rcases hlimit with rfl | rfl
        · cases hnone
        · cases hnone
      · rw [append_nil]
        rcases hlimit with rfl | rfl
        · exact ⟨h.unstopped, htexts⟩
        · exact ⟨h.unstopped, htexts⟩
    · rw [if_neg hbudget]
      refine ⟨st, output, ⟨count, .none⟩, [], rfl, rfl, prefix_rfl,
        hfirst, ?_, trivial, .inr hst⟩
      intro _
      rw [append_nil]
      exact ⟨rfl, h⟩
  | cons token rest ih =>
    intro tokens count st output h hst hwf
    have hsplit : tokens ++ token :: rest = tokens ++ [token] ++ rest := by
      simp
    rw [hsplit] at hwf
    have hmem : token ∈ tokens ++ [token] ++ rest := by simp
    obtain ⟨bytes, hbytes⟩ := hwf.decodes token hmem
    obtain ⟨step, hok, hstep⟩ := previewToken_spec (count + 1) h hst
      hwf.left.left.scans hwf.left.scans (hwf.valid token hmem) hbytes
    unfold previewLoop
    rw [hok]
    cases step with
    | next st₁ out₁ =>
      obtain ⟨hlistening, hst₁⟩ := hstep
      obtain ⟨st', out, d, taken, hloop, hcount, htakes⟩ :=
        ih (tokens ++ [token]) (count + 1) st₁ out₁ hlistening hst₁ hwf
      refine ⟨st', out, d, token :: taken, hloop, ?_, ?_, ?_, ?_, ?_,
        htakes.staged⟩
      · rw [hcount, length_cons]
        omega
      · exact cons_prefix_cons.mpr ⟨rfl, htakes.part⟩
      · intro n hn
        cases n with
        | zero =>
          rw [take_zero, append_nil]
          exact h.unstopped
        | succ n =>
          rw [length_cons] at hn
          have hbefore := htakes.before n (by omega)
          rw [append_assoc] at hbefore
          exact hbefore
      · intro hnone
        obtain ⟨htaken, hlast⟩ := htakes.going hnone
        rw [hsplit]
        exact ⟨by rw [htaken], hlast⟩
      · have hended := htakes.ended
        rw [append_assoc] at hended
        exact hended
    | finish st₁ out₁ reason =>
      obtain ⟨hended, hwhy⟩ := hstep
      refine ⟨st₁, out₁, ⟨count + 1, reason⟩, [token], rfl, rfl, ?_, ?_,
        ?_, hended, ?_⟩
      · exact cons_prefix_cons.mpr ⟨rfl, nil_prefix⟩
      · intro n hn
        obtain rfl : n = 0 := by
          simp at hn
          omega
        rw [take_zero, append_nil]
        exact h.unstopped
      · intro hnone
        change reason = .none at hnone
        rcases hwhy with rfl | ⟨rfl, -⟩
        · cases hnone
        · cases hnone
      · rcases hwhy with rfl | ⟨rfl, hst₁⟩
        · exact .inl rfl
        · exact .inr hst₁

end SessionOptions

-- ============ the calls

/-- The calls a session admits: a round is not empty and within its
budget, and each end has a reason of its kind. -/
def SessionCall.Admitted : SessionCall → Prop
  | .round tokens budgetRemaining limitReason =>
    tokens ≠ [] ∧ tokens.length ≤ budgetRemaining
      ∧ OutputSession.LimitReason limitReason
  | .terminal reason =>
    reason ≠ .none ∧ reason ≠ .stopString ∧ reason ≠ .stopToken

/-- What holds of a generation's transcript. -/
structure Transcript.Served (s : SessionOptions) (starts : Bool)
    (t : Transcript) : Prop where
  options : t.session.toSessionOptions = s
  before : ∀ n < t.accepted.length, s.Unstopped starts (t.accepted.take n)
  going : t.reason = .none → t.session.previewReady = false
    ∧ s.Listening starts t.accepted t.session.state t.published
  ended : s.Ended starts t.accepted t.published t.reason
  staged : t.reason = .stopString ∨ ∀ out ∈ t.commits, ∃ r, Staged r out

namespace Transcript

variable {s : SessionOptions} {starts : Bool} {t : Transcript}

/-- Before the first call: nothing is decoded, nothing is held back. -/
theorem served_start (tokenizer : Tokenizer) (policy : StopPolicy)
    (raw preserveSpecialTokens startsInReasoning : Bool)
    (hstops : ∀ stop ∈ policy.strings, stop.text ≠ []) :
    Served ⟨tokenizer, policy, raw || preserveSpecialTokens⟩
      (startsInReasoning && !raw)
      (start (.make tokenizer policy raw preserveSpecialTokens
        startsInReasoning)) where
  options := rfl
  before := nofun
  going := by
    intro _
    have hheld : ∀ c, HeldBack (StopOn policy c) [] [] := by
      intro c
      refine HeldBack.start ?_
      rintro p ⟨stop, hmem, -, rfl⟩
      exact hstops stop hmem
    refine ⟨rfl, rfl, rfl, ⟨?_, ?_, ?_, ?_, fun _ => rfl, ?_⟩,
      ⟨hheld _, fun _ => hheld _, (hheld _).clear⟩⟩
    · cases startsInReasoning <;> cases raw <;> rfl
    · cases startsInReasoning <;> cases raw <;> rfl
    · intro hmode
      change (startsInReasoning && !raw) = false at hmode
      rw [hmode]
      rfl
    · intro c
      cases c <;> cases startsInReasoning <;> cases raw <;> rfl
    · cases startsInReasoning <;> cases raw <;> rfl
  ended := trivial
  staged := .inr nofun

/-- The session with a preview at hand. -/
def previewed (session : OutputSession) (st : DecoderState)
    (out : PublishedOutput) : OutputSession :=
  { session with
    previewState := st
    previewOutput := out
    previewReady := true }

/-- A preview that follows the stream, committed. -/
theorem call_committed (h : Served s starts t) (hgoing : t.reason = .none)
    {c : SessionCall} {st : DecoderState} {out : PublishedOutput}
    {d : OutputDecision} {taken : List TokenId}
    (hpreview : c.preview t.session = .ok (d, previewed t.session st out))
    (htaken : c.tokens.take d.acceptedTokens = taken)
    (htakes : s.Takes starts t.accepted c.tokens t.published st out
      d.finishReason taken) :
    ∃ t', t.call c = .ok t' ∧ Served s starts t'
      ∧ t'.accepted <+: t.accepted ++ c.tokens
      ∧ (t'.reason = .none → t'.accepted = t.accepted ++ c.tokens) := by
  obtain ⟨t', ht'⟩ : ∃ t' : Transcript, t' =
      { session := (previewed t.session st out).commitPreview.2
        accepted := t.accepted ++ taken
        commits := t.commits ++ [out]
        reason := d.finishReason } := ⟨_, rfl⟩
  have haccepted : t'.accepted = t.accepted ++ taken := by rw [ht']
  have hreason : t'.reason = d.finishReason := by rw [ht']
  have hpublished : t'.published
      = fun ch => t.published ch ++ textOn ch out := by
    funext ch
    rw [ht']
    unfold published
    rw [flatMap_append, flatMap_singleton]
  refine ⟨t', ?_, ⟨?_, ?_, ?_, ?_, ?_⟩, ?_, ?_⟩
  · unfold call
    rw [hpreview]
    dsimp only
    rw [htaken, ht']
    rfl
  · rw [ht']
    exact h.options
  · intro n hn
    rw [haccepted] at hn ⊢
    by_cases hlt : n < t.accepted.length
    · rw [take_append_of_le_length (by omega)]
      exact h.before n hlt
    · rw [length_append] at hn
      obtain ⟨k, rfl⟩ := Nat.exists_eq_add_of_le (Nat.le_of_not_lt hlt)
      rw [take_length_add_append]
      exact htakes.before k (by omega)
  · intro hnone
    rw [hreason] at hnone
    obtain ⟨hall, hlast⟩ := htakes.going hnone
    rw [haccepted, hpublished, hall, ht']
    exact ⟨rfl, hlast⟩
  · rw [haccepted, hpublished, hreason]
    exact htakes.ended
  · rw [hreason]
    rcases htakes.staged with hstop | hst
    · exact .inl hstop
    · refine .inr ?_
      intro o ho
      rw [ht'] at ho
      rcases mem_append.mp ho with ho | ho
      · rcases h.staged with hstop | hall
        · rw [hgoing] at hstop
          cases hstop
        · exact hall o ho
      · rw [mem_singleton.mp ho]
        exact ⟨_, hst⟩
  · rw [haccepted]
    exact (prefix_append_right_inj _).mpr htakes.part
  · intro hnone
    rw [hreason] at hnone
    rw [haccepted, (htakes.going hnone).1]

/-- One call of a session that goes on: it returns, and what it accepts
and publishes follows the stream. -/
theorem call_spec (h : Served s starts t) (hgoing : t.reason = .none)
    {c : SessionCall} (hadmitted : c.Admitted)
    (hwf : s.WellFormed (t.accepted ++ c.tokens)) :
    ∃ t', t.call c = .ok t' ∧ Served s starts t'
      ∧ t'.accepted <+: t.accepted ++ c.tokens
      ∧ (t'.reason = .none → t'.accepted = t.accepted ++ c.tokens) := by
  obtain ⟨hready, hlistening⟩ := h.going hgoing
  have hnot : t.session.state.terminal = false := hlistening.going
  have hbase : s.Listening starts t.accepted t.session.state
      (fun ch => t.published ch ++ textOn ch []) := by
    simp only [textOn_nil, append_nil]
    exact hlistening
  cases c with
  | round tokens budgetRemaining limitReason =>
    obtain ⟨hne, hbudget, hlimit⟩ := hadmitted
    have hround : ∃ st out d taken,
        s.previewLoop budgetRemaining limitReason 0 t.session.state []
            tokens = .ok (st, out, d)
          ∧ d.acceptedTokens = 0 + taken.length
          ∧ s.Takes starts t.accepted tokens t.published st out
              d.finishReason taken :=
      SessionOptions.previewLoop_spec hlimit tokens t.accepted 0
        t.session.state [] hbase (Staged.nil _) hwf
    obtain ⟨st, out, d, taken, hloop, hcount, htakes⟩ := hround
    rw [zero_add] at hcount
    refine call_committed h hgoing ?_ ?_ htakes
    · show t.session.preview tokens budgetRemaining limitReason = _
      unfold OutputSession.preview
      rw [hnot, hready, if_neg (by decide), if_neg (by decide),
        if_neg (by simpa using hne), if_neg (by omega), if_neg
          (by rcases hlimit with rfl | rfl <;> simp)]
      rw [← h.options] at hloop
      rw [hloop]
      rfl
    · rw [hcount]
      exact (prefix_iff_eq_take.mp htakes.part).symm
  | terminal reason =>
    obtain ⟨hnone, hstring, htoken⟩ := hadmitted
    obtain ⟨st, out, hok, hst, hflush⟩ :=
      hbase.terminalize 0 (Staged.nil _)
    have hpreview : (SessionCall.terminal reason).preview t.session
        = .ok (⟨0, reason⟩, previewed t.session st out) := by
      show t.session.previewTerminal reason = _
      unfold OutputSession.previewTerminal
      rw [hnot, hready, if_neg (by decide), if_neg (by decide),
        if_neg (by simp [hnone, hstring, htoken])]
      rw [← h.options] at hok
      rw [hok]
      rfl
    have htakes : s.Takes starts t.accepted [] t.published st out reason
        [] := by
      refine ⟨prefix_rfl, nofun, fun h' => absurd h' hnone, ?_, .inr hst⟩
      rw [append_nil]
      cases reason with
      | none => exact absurd rfl hnone
      | stopString => exact absurd rfl hstring
      | stopToken => exact absurd rfl htoken
      | outputLimit => exact ⟨hlistening.unstopped, hflush⟩
      | contextCapacity => exact ⟨hlistening.unstopped, hflush⟩
      | cancelled => exact ⟨hlistening.unstopped, hflush⟩
    exact call_committed h hgoing hpreview rfl htakes

/-- Every run of calls over a well-formed stream returns. -/
theorem serve_spec : ∀ (calls : List SessionCall) (t : Transcript),
    Served s starts t → (∀ c ∈ calls, c.Admitted) →
    s.WellFormed (t.accepted ++ calls.flatMap SessionCall.tokens) →
    ∃ t', serve t calls = .ok t' ∧ Served s starts t'
      ∧ t'.accepted <+: t.accepted ++ calls.flatMap SessionCall.tokens
      ∧ (t'.reason = .none → t'.accepted
        = t.accepted ++ calls.flatMap SessionCall.tokens) := by
  intro calls
  induction calls with
  | nil =>
    intro t h _ _
    refine ⟨t, rfl, h, ?_, ?_⟩
    · rw [flatMap_nil, append_nil]
    · intro _
      rw [flatMap_nil, append_nil]
  | cons c rest ih =>
    intro t h hadmitted hwf
    unfold serve
    by_cases hgoing : t.reason = .none
    · rw [if_neg (not_not.mpr hgoing)]
      rw [flatMap_cons, ← append_assoc] at hwf ⊢
      obtain ⟨t₁, hok, hserved, hpart, hall⟩ := call_spec h hgoing
        (hadmitted c (.head _)) hwf.left
      rw [hok]
      dsimp only
      by_cases hnext : t₁.reason = .none
      · rw [← hall hnext] at hwf ⊢
        exact ih t₁ hserved (fun c' hc' => hadmitted c' (.tail _ hc')) hwf
      · -- The generation is over: the other calls are not made.
        have hover : serve t₁ rest = .ok t₁ := by
          cases rest with
          | nil => rfl
          | cons c' rest =>
            unfold serve
            rw [if_pos hnext]
        exact ⟨t₁, hover, hserved, hpart.trans (prefix_append _ _),
          fun h' => absurd h' hnext⟩
    · rw [if_pos hgoing]
      exact ⟨t, rfl, h, prefix_append _ _, fun h' => absurd h' hgoing⟩

end Transcript

end Ginfer.Frontend
