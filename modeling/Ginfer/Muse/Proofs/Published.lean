/-
What a generation publishes, and what it should.

`Reading` follows the tokens as the protocol means them: the text of a body
is published on its channel; a header that is of its form names the next
body, any other is text that was generated. Next to it stand the two ways
in which the decoder departs from that. A `<|start|>` or an `<|eom|>` throws
the header away that it ends (`drops`); and where a header becomes content,
what the prompt has put in front of it does too, as does a header that is
in order, when the generation ends in it (`exposes`).

`Accounts` relates a reading to the decoder: what is published and what is
held back is the reading's text, but for what was dropped and exposed
(`Tally`). Every token keeps it (`feedProtocolToken_accounts`), and the end
publishes what was held back (`terminalize_accounts`).
-/
import Ginfer.Frontend.Proofs.Utf8
import Ginfer.Muse.Proofs.Rounds

namespace Ginfer.Muse

open Ginfer.Lib Ginfer.Frontend List Function
open Bool hiding and_self and_false

-- ============ the reading

/-- What the tokens so far mean: the stage, whether the header began with
the prompt's, the generated text of the header, the text since the last
message began or ended, the text of the bodies and of the headers that are
none; and what the decoder makes of it differently. -/
structure Reading where
  stage : AtemStage
  prompted : Bool
  header : Bytes
  segment : Bytes
  text : OutputChannel → Bytes
  whole : Bool
  drops : Bool
  exposes : Bool

/-- Whole characters. -/
def isWhole (bytes : Bytes) : Bool :=
  match validUtf8PrefixSize bytes with
  | .ok valid => valid == bytes.length
  | .error _ => false

namespace Reading

/-- Where the generation begins: in the header the prompt has begun. -/
def start : Reading :=
  ⟨.header, true, [], [], fun _ => [], true, false, false⟩

variable (r : Reading)

/-- The header's beginning that was not generated. -/
def prompt : Bytes := if r.prompted then ascii "assistant" else []

/-- The stage the header names, where it is of its form. -/
def named : Option AtemStage :=
  headerStage (trimAscii (r.prompt ++ r.header))

/-- Text on a channel. -/
def publish (ch : OutputChannel) (text : Bytes) : Reading :=
  { r with text := update r.text ch (r.text ch ++ text) }

/-- What a header is that is not of its form: text, but for the space
around it. -/
def headerText : Bytes :=
  if r.named.isSome then [] else trimAscii r.header

/-- The token ends what was read in one piece. -/
def next (stage : AtemStage) : Reading :=
  { r with
    stage := stage
    prompted := false
    header := []
    segment := []
    whole := r.whole && isWhole r.segment }

/-- The header is ended without a body, as it should be. -/
def endHeader : Reading :=
  if r.stage.isBody then r
  else { r.publish .content r.headerText with
    drops := r.drops || !r.headerText.isEmpty }

/-- The header is ended by its body. -/
def openBody : Reading :=
  { (r.publish .content r.headerText).next (r.named.getD .content) with
    exposes := r.exposes || r.named.isNone && r.prompted }

/-- Text of the body or of the header. -/
def take (bytes : Bytes) : Reading :=
  if r.stage.isBody then
    { r.publish r.stage.channel bytes with segment := r.segment ++ bytes }
  else
    { r with header := r.header ++ bytes, segment := r.segment ++ bytes }

/-- A token. -/
def read (token : TokenId) (bytes : Bytes) : Reading :=
  if token = startToken then r.endHeader.next .header
  else if token = messageToken ∧ r.stage.isBody = false then r.openBody
  else if token = eomToken then r.endHeader.next .betweenMessages
  else r.take bytes

/-- The end: a header that is not of its form is text. -/
def finish : Reading :=
  if r.stage.isBody then r.next r.stage
  else { (r.publish .content (if r.named.isSome then [] else r.header)).next
      r.stage with
    exposes := r.exposes || r.prompted || r.named.isSome }

/-- The tokens up to the stop token, and the end. A stop token is text only
where the policy publishes it. -/
def readAll (policy : StopPolicy) (bytes : TokenId → Bytes) :
    Reading → List TokenId → Reading
  | r, [] => r.finish
  | r, token :: rest =>
    if token ∈ policy.tokenIds then
      if policy.publishStopToken then (r.read token (bytes token)).finish
      else r.finish
    else readAll policy bytes (r.read token (bytes token)) rest

end Reading

/-- The bytes of a token. -/
def tokenBytes (s : SessionOptions) (token : TokenId) : Bytes :=
  match s.tokenizer.decodeTokenBytes token (!s.preserveSpecial) with
  | .ok bytes => bytes
  | .error _ => []

-- ============ the tally

/-- What is published against what should be: shorter by what was dropped,
longer by what was exposed, and the same where there is neither. -/
def Tally (published text : Bytes) (drops exposes : Bool) : Prop :=
  ∃ lost extra : Nat,
    published.length + lost = text.length + extra
      ∧ (drops = false ↔ lost = 0) ∧ (exposes = false ↔ extra = 0)
      ∧ (lost = 0 → extra = 0 → published = text)

section

variable {published text piece : Bytes} {drops exposes : Bool}

variable (h : Tally published text drops exposes)

include h

theorem Tally.append (piece : Bytes) :
    Tally (published ++ piece) (text ++ piece) drops exposes := by
  obtain ⟨lost, extra, hlength, hdrops, hexposes, hsame⟩ := h
  refine ⟨lost, extra, ?_, hdrops, hexposes, fun hl he => ?_⟩
  · rw [length_append, length_append]
    omega
  · rw [hsame hl he]

theorem Tally.drop (piece : Bytes) :
    Tally published (text ++ piece) (drops || !piece.isEmpty) exposes := by
  obtain ⟨lost, extra, hlength, hdrops, hexposes, hsame⟩ := h
  cases piece with
  | nil =>
    rw [append_nil, isEmpty_nil, Bool.not_true, Bool.or_false]
    exact ⟨lost, extra, hlength, hdrops, hexposes, hsame⟩
  | cons b rest =>
    refine ⟨lost + (rest.length + 1), extra, ?_, ?_, hexposes, ?_⟩
    · rw [length_append, length_cons]
      omega
    · rw [isEmpty_cons, Bool.not_false, Bool.or_true]
      exact iff_of_false nofun (by omega)
    · omega

theorem Tally.expose {shown piece : Bytes} (hlt : piece.length < shown.length) :
    Tally (published ++ shown) (text ++ piece) drops true := by
  obtain ⟨lost, extra, hlength, hdrops, -, -⟩ := h
  refine ⟨lost, extra + (shown.length - piece.length), ?_, hdrops, ?_, ?_⟩
  · rw [length_append, length_append]
    omega
  · exact iff_of_false nofun (by omega)
  · omega

/-- Where nothing is exposed the text is published if nothing is dropped,
and the other way round. -/
theorem Tally.exact : (exposes = false → (published = text ↔ drops = false))
      ∧ (drops = false → (published = text ↔ exposes = false)) := by
  obtain ⟨lost, extra, hlength, hdrops, hexposes, hsame⟩ := h
  rw [hdrops, hexposes]
  refine ⟨fun he => ⟨fun heq => ?_, fun hl => hsame hl he⟩,
    fun hl => ⟨fun heq => ?_, fun he => hsame hl he⟩⟩
  · rw [heq] at hlength
    omega
  · rw [heq] at hlength
    omega

omit h

end

-- ============ the space

/-- Dropping from a list that something was put in front of. -/
theorem length_dropWhile_append_le (p : UInt8 → Bool) (xs ys : Bytes) :
    (xs.dropWhile p).length ≤ ((xs ++ ys).dropWhile p).length := by
  rw [dropWhile_append]
  split
  · next hempty =>
    rw [isEmpty_iff.mp hempty]
    exact Nat.zero_le _
  · rw [length_append]
    exact Nat.le_add_right _ _

/-- The prompt's header stands in front of what is added to it. -/
theorem trimAscii_prompt (header : Bytes) :
    (trimAscii header).length
      < (trimAscii (ascii "assistant" ++ header)).length := by
  have hfront : (ascii "assistant" ++ header).dropWhile isSpace
      = ascii "assistant" ++ header := by
    show List.dropWhile isSpace (_ :: _) = _
    rw [dropWhile_cons_of_neg (by decide)]
    rfl
  have hback : ((header.reverse ++ (ascii "assistant").reverse).dropWhile
        isSpace).length
      = (header.reverse.dropWhile isSpace).length
        + (ascii "assistant").length := by
    rw [dropWhile_append]
    split
    · next hempty =>
      rw [isEmpty_iff.mp hempty]
      decide
    · rw [length_append, length_reverse]
  have hle : ((header.dropWhile isSpace).reverse.dropWhile isSpace).length
      ≤ (header.reverse.dropWhile isSpace).length := by
    conv_rhs => rw [← takeWhile_append_dropWhile (p := isSpace)
      (l := header), reverse_append]
    exact length_dropWhile_append_le _ _ _
  have hpos : 0 < (ascii "assistant").length := by decide
  unfold trimAscii
  rw [hfront, reverse_append, length_reverse, length_reverse, hback]
  omega

-- ============ the channels

section

variable {policy : StopPolicy} {n : Nat} {f f' : Feed} {c : OutputChannel}

theorem appendDelta_text {o o' : PublishedOutput} {t : Bytes}
    (h : appendDelta o c t = .ok o') (ch : OutputChannel) :
    textOn ch o' = textOn ch o ++ if ch = c then t else [] := by
  by_cases ht : t = []
  · subst ht
    rw [appendDelta_nil] at h
    cases h
    rw [ite_self, append_nil]
  cases hroom : hasRoom (channels o) c with
  | true =>
    obtain ⟨o₁, hok, -, htext⟩ := appendDelta_room hroom ht
    obtain rfl := Except.ok.inj (hok.symm.trans h)
    exact htext ch
  | false =>
    rw [appendDelta_full hroom ht] at h
    cases h

/-- What is published on a channel of a round and what it holds back. -/
def Feed.told (f : Feed) (ch : OutputChannel) : Bytes :=
  textOn ch f.emitted ++ f.state.stopPending ch

theorem feedChannel_told {text : Bytes}
    (h : feedChannel appendDelta policy n c text f = .ok f') :
    Frame c f.state f'.state
      ∧ ∀ ch, f'.told ch = f.told ch ++ if ch = c then text else [] := by
  unfold feedChannel at h
  split at h
  · next hempty =>
    cases h
    rw [isEmpty_iff.mp hempty]
    refine ⟨.refl c _, fun ch => ?_⟩
    rw [ite_self, append_nil]
  · obtain ⟨best, -, h⟩ := bind_ok.mp h
    obtain ⟨emitted, hemitted, h⟩ := bind_ok.mp h
    cases h
    refine ⟨⟨rfl, rfl, rfl, rfl, rfl, fun ch hch =>
      update_of_ne hch _ _⟩, fun ch => ?_⟩
    unfold Feed.told
    dsimp only
    rw [appendDelta_text hemitted ch]
    by_cases hch : ch = c
    · subst hch
      rw [update_self, if_pos rfl, if_pos rfl, append_assoc,
        take_append_drop, append_assoc]
    · rw [update_of_ne hch, if_neg hch, if_neg hch, append_nil, append_nil]

theorem closeChannel_told (h : closeChannel appendDelta c f = .ok f') :
    Frame c f.state f'.state ∧ f'.state.stopPending c = []
      ∧ ∀ ch, f'.told ch = f.told ch := by
  obtain ⟨emitted, hemitted, h⟩ := bind_ok.mp h
  cases h
  refine ⟨⟨rfl, rfl, rfl, rfl, rfl, fun ch hch =>
    update_of_ne hch _ _⟩, update_self _ _ _, fun ch => ?_⟩
  unfold Feed.told
  dsimp only
  rw [appendDelta_text hemitted ch]
  by_cases hch : ch = c
  · subst hch
    rw [update_self, if_pos rfl, append_nil]
  · rw [update_of_ne hch, if_neg hch, append_nil]

end

-- ============ the accounts

/-- Text that is the reading's, but for what was dropped and exposed. -/
structure Tells (r : Reading) (total : OutputChannel → Bytes) : Prop where
  reasoning : total .reasoning = r.text .reasoning
  content : Tally (total .content) (r.text .content) r.drops r.exposes

/-- The bytes of an unfinished character of a body. -/
def waiting (st : DecoderState) (ch : OutputChannel) : Bytes :=
  if st.stage.isBody = true ∧ ch = st.stage.channel then st.utf8Pending
  else []

/-- The decoder is where the reading is, and what it has published, earlier
and in this round, and what it holds back is the reading's text. -/
structure Accounts (r : Reading) (prior : OutputChannel → Bytes)
    (f : Feed) : Prop where
  stage : f.state.stage = r.stage
  atem : r.stage ≠ .plainContent
  held : Held f.state
  scanned : ∃ read, r.segment = read ++ f.state.utf8Pending
    ∧ validUtf8PrefixSize r.segment = .ok read.length
  header : r.stage.isBody = false →
    f.state.headerPending ++ f.state.utf8Pending = r.prompt ++ r.header
  tells : Tells r fun ch => prior ch ++ f.told ch ++ waiting f.state ch

theorem waiting_header {st : DecoderState} (h : st.stage.isBody = false)
    (ch : OutputChannel) : waiting st ch = [] :=
  if_neg fun hin => absurd (h.symm.trans hin.1) (by decide)

theorem waiting_nil {st : DecoderState} (h : st.utf8Pending = [])
    (ch : OutputChannel) : waiting st ch = [] := by
  unfold waiting
  rw [h, ite_self]

section

variable {policy : StopPolicy} {n : Nat} {r : Reading}
  {prior total : OutputChannel → Bytes} {f f' : Feed}

theorem Tells.publish (h : Tells r total) (c : OutputChannel) (text : Bytes) :
    Tells (r.publish c text)
      fun ch => total ch ++ if ch = c then text else [] := by
  unfold Reading.publish
  cases c with
  | content =>
    refine ⟨?_, ?_⟩
    · rw [if_neg (by decide), append_nil]
      exact h.reasoning
    · rw [if_pos rfl]
      exact h.content.append text
  | reasoning =>
    refine ⟨?_, ?_⟩
    · rw [if_pos rfl, h.reasoning]
      rfl
    · rw [if_neg (by decide), append_nil]
      exact h.content

theorem Tells.congr {r' : Reading} {total' : OutputChannel → Bytes}
    (h : Tells r total) (hr : r'.text = r.text ∧ r'.drops = r.drops
      ∧ r'.exposes = r.exposes) (heq : ∀ ch, total' ch = total ch) :
    Tells r' total' := by
  obtain ⟨htext, hdrops, hexposes⟩ := hr
  refine ⟨?_, ?_⟩
  · rw [heq, htext]
    exact h.reasoning
  · rw [heq, htext, hdrops, hexposes]
    exact h.content

/-- At the end of whole characters nothing waits. -/
theorem Accounts.pending (h : Accounts r prior f)
    (hwhole : isWhole r.segment = true) : f.state.utf8Pending = [] := by
  obtain ⟨read, hsegment, hscan⟩ := h.scanned
  unfold isWhole at hwhole
  rw [hscan] at hwhole
  have hlength := congrArg List.length hsegment
  rw [length_append, ← beq_iff_eq.mp hwhole] at hlength
  exact length_eq_zero_iff.mp (by omega)

/-- Then nothing is flushed. -/
theorem Accounts.flush (h : Accounts r prior f)
    (hwhole : isWhole r.segment = true) :
    flushIncompleteUtf8 appendDelta policy n f = .ok f :=
  if_pos (isEmpty_iff.mpr (h.pending hwhole))

theorem feedDecodedText_body (hbody : f.state.stage.isBody = true)
    (text : Bytes) : feedDecodedText appendDelta policy n text f
      = feedChannel appendDelta policy n f.state.stage.channel text f :=
  if_neg (by rw [header_of_not_body, hbody]; decide)

theorem feedDecodedText_header (hbody : f.state.stage.isBody = false)
    (text : Bytes) : feedDecodedText appendDelta policy n text f
      = .ok { f with state := { f.state with
          headerPending := f.state.headerPending ++ text } } :=
  if_pos (header_of_not_body.mpr hbody)

/-- Decoding no text does nothing. -/
theorem feedDecodedText_nil (f : Feed) :
    feedDecodedText appendDelta policy n [] f = .ok f := by
  unfold feedDecodedText
  split
  · rw [append_nil]
  · rfl

/-- The bytes of a token. -/
theorem feedTokenBytes_accounts {bytes : Bytes} (hr : Accounts r prior f)
    (h : feedTokenBytes appendDelta policy n bytes f = .ok f') :
    Accounts (r.take bytes) prior f' := by
  obtain ⟨read, hsegment, hscan⟩ := hr.scanned
  obtain ⟨valid, hvalid, h⟩ := bind_ok.mp h
  -- the scan goes on with what was waiting
  have hdrop : r.segment.drop read.length = f.state.utf8Pending := by
    rw [hsegment, drop_left]
  have hmore := (validUtf8PrefixSize_append hscan bytes).2
  rw [hdrop, hvalid] at hmore
  have hle := (validUtf8PrefixSize_append hvalid []).1
  generalize hpending : f.state.utf8Pending ++ bytes = pending at *
  have hscanned : ∃ read', r.segment ++ bytes = read' ++ pending.drop valid
      ∧ validUtf8PrefixSize (r.segment ++ bytes) = .ok read'.length := by
    refine ⟨read ++ pending.take valid, ?_, ?_⟩
    · rw [append_assoc, take_append_drop, ← hpending,
        ← append_assoc, ← hsegment]
    · rw [hmore, length_append, length_take, Nat.min_eq_left hle]
      rfl
  have hdecoded : feedDecodedText appendDelta policy n (pending.take valid)
      { f with state := { f.state with utf8Pending := pending.drop valid } }
        = .ok f' := by
    by_cases hzero : valid = 0
    · rw [if_pos hzero] at h
      rw [hzero]
      exact (feedDecodedText_nil _).trans h
    · rwa [if_neg hzero] at h
  have hstage := hr.stage
  unfold Reading.take
  cases hbody : r.stage.isBody with
  | true =>
    have hin : f.state.stage.isBody = true := hstage ▸ hbody
    rw [feedDecodedText_body (by exact hin)] at hdecoded
    rw [if_pos rfl]
    obtain ⟨hframe, htold⟩ := feedChannel_told hdecoded
    have htold : ∀ ch, f'.told ch = f.told ch
        ++ if ch = r.stage.channel then pending.take valid else [] :=
      hstage ▸ htold
    have hstage' : f'.state.stage = r.stage := hframe.stage.trans hstage
    refine ⟨hstage', hr.atem, ?_, ?_, ?_, ?_⟩
    · exact (hframe.stays hin rfl).held hr.held
    · rw [hframe.utf8]
      exact hscanned
    · intro hnot
      exact absurd (hbody.symm.trans hnot) (by decide)
    · refine (hr.tells.publish r.stage.channel bytes).congr
        ⟨rfl, rfl, rfl⟩ fun ch => ?_
      have hutf8 : f'.state.utf8Pending = pending.drop valid := hframe.utf8
      unfold waiting
      rw [hstage', hstage, hutf8, htold ch, hbody]
      by_cases hch : ch = r.stage.channel
      · simp only [hch, and_self, if_true, append_assoc]
        rw [take_append_drop, hpending]
      · simp only [hch, and_false, if_false, append_nil]
  | false =>
    rw [feedDecodedText_header (by exact hstage ▸ hbody)] at hdecoded
    cases hdecoded
    rw [if_neg (by decide)]
    refine ⟨hstage, hr.atem, hr.held, hscanned, ?_, ?_⟩
    · intro _
      show f.state.headerPending ++ pending.take valid ++ pending.drop valid
        = r.prompt ++ (r.header ++ bytes)
      rw [append_assoc, take_append_drop, ← hpending,
        ← append_assoc, hr.header hbody, append_assoc]
    · refine hr.tells.congr ⟨rfl, rfl, rfl⟩ fun ch => ?_
      have hout : f.state.stage.isBody = false := hstage ▸ hbody
      exact congrArg (prior ch ++ f.told ch ++ ·)
        ((waiting_header (by exact hout) ch).trans (waiting_header hout ch).symm)

variable {stage : AtemStage}

/-- No header names the text outside of the protocol. -/
theorem headerStage_atem {header : Bytes}
    (h : headerStage header = some stage) : stage ≠ .plainContent := by
  unfold headerStage at h
  rintro rfl
  split at h
  · cases h
  split at h
  · have hstage := Option.some.inj h
    split at hstage
    · cases hstage
    · cases hstage
  · cases h

/-- Where something new begins nothing is left of what was before. -/
theorem Accounts.next (hstage : f.state.stage = stage)
    (hatem : stage ≠ .plainContent) (hheld : Held f.state)
    (hutf8 : f.state.utf8Pending = []) (hheader : f.state.headerPending = [])
    (htells : Tells r fun ch => prior ch ++ f.told ch) :
    Accounts (r.next stage) prior f where
  stage := hstage
  atem := hatem
  held := hheld
  scanned := ⟨[], by rw [hutf8]; rfl, rfl⟩
  header := by
    intro _
    rw [hheader, hutf8]
    rfl
  tells := htells.congr ⟨rfl, rfl, rfl⟩ fun ch => by
    rw [waiting_nil hutf8, append_nil]

/-- Nothing waits, so what is told is the text. -/
theorem Accounts.told (hr : Accounts r prior f)
    (hwhole : isWhole r.segment = true) :
    Tells r fun ch => prior ch ++ f.told ch :=
  hr.tells.congr ⟨rfl, rfl, rfl⟩ fun ch => by
    rw [waiting_nil (hr.pending hwhole), append_nil]

theorem Reading.endHeader_whole (h : (r.endHeader.next stage).whole = true) :
    isWhole r.segment = true := by
  unfold Reading.endHeader at h
  split at h
  · exact (and_eq_true_iff.mp h).2
  · exact (and_eq_true_iff.mp h).2

/-- A header that is thrown away. -/
theorem Tells.endHeader (h : Tells r total) : Tells r.endHeader total := by
  unfold Reading.endHeader
  split
  · exact h
  · refine ⟨h.reasoning, ?_⟩
    have hdrop := h.content.drop r.headerText
    exact hdrop

/-- What a body held back is published when it ends. -/
theorem closeBody_told (hheld : Held f.state)
    (h : closeBody appendDelta f = .ok f') :
    f'.state.utf8Pending = f.state.utf8Pending
      ∧ (∀ ch, f'.state.stopPending ch = [])
      ∧ ∀ ch, f'.told ch = f.told ch := by
  unfold closeBody at h
  cases hbody : f.state.stage.isBody with
  | true =>
    rw [hbody, if_pos rfl] at h
    obtain ⟨hframe, hnone, htold⟩ := closeChannel_told h
    refine ⟨hframe.utf8, fun ch => ?_, htold⟩
    by_cases hch : ch = f.state.stage.channel
    · rw [hch, hnone]
    · rw [hframe.others ch hch]
      by_contra hne
      exact hch (hheld ch hne).2
  | false =>
    rw [hbody, if_neg (by decide)] at h
    cases h
    exact ⟨rfl, hheld.nil hbody, fun _ => rfl⟩

/-- `<|start|>` and `<|eom|>`. -/
theorem closeAtemMessage_accounts
    (hatem : stage ≠ .plainContent) (hr : Accounts r prior f)
    (hwhole : isWhole r.segment = true)
    (h : closeAtemMessage appendDelta policy n stage f = .ok f') :
    Accounts (r.endHeader.next stage) prior f' := by
  obtain ⟨flushed, hflush, h⟩ := bind_ok.mp h
  obtain rfl := Except.ok.inj ((hr.flush hwhole).symm.trans hflush)
  obtain ⟨closed, hclosed, h⟩ := bind_ok.mp h
  cases h
  obtain ⟨hutf8, hnone, htold⟩ := closeBody_told hr.held hclosed
  refine .next rfl hatem (fun ch hne => absurd (hnone ch) hne)
    (hutf8.trans (hr.pending hwhole)) rfl ?_
  refine (hr.told hwhole).endHeader.congr ⟨rfl, rfl, rfl⟩ fun ch => ?_
  exact congrArg (prior ch ++ ·) (htold ch)

/-- `<|message|>` behind a header. -/
theorem openAtemMessage_accounts (hr : Accounts r prior f)
    (hbody : r.stage.isBody = false) (hwhole : isWhole r.segment = true)
    (h : openAtemMessage appendDelta policy n f = .ok f') :
    Accounts r.openBody prior f' := by
  obtain ⟨flushed, hflush, h⟩ := bind_ok.mp h
  obtain rfl := Except.ok.inj ((hr.flush hwhole).symm.trans hflush)
  have hpending := hr.pending hwhole
  have hheader : f.state.headerPending = r.prompt ++ r.header := by
    have hall := hr.header hbody
    rwa [hpending, append_nil] at hall
  have hnone := hr.held.nil (hr.stage ▸ hbody)
  have htold := hr.told hwhole
  unfold Ginfer.Muse.openBody at h
  dsimp only at h
  rw [hheader, show headerStage (trimAscii (r.prompt ++ r.header)) = r.named
    from rfl] at h
  show Accounts (Reading.next
    { r.publish .content r.headerText with
      exposes := r.exposes || r.named.isNone && r.prompted }
    (r.named.getD .content)) prior f'
  cases hnamed : r.named with
  | some stage =>
    rw [hnamed] at h
    cases h
    have htext : r.headerText = [] := if_pos (by rw [hnamed]; rfl)
    refine .next rfl ?_ (fun ch hne => absurd (hnone ch) hne) hpending rfl
      (htold.congr ⟨?_, rfl, ?_⟩ fun _ => rfl)
    · exact headerStage_atem hnamed
    · rw [htext]
      show update r.text .content (r.text .content ++ []) = r.text
      rw [append_nil, update_eq_self]
    · show (r.exposes || (false && r.prompted)) = r.exposes
      rw [Bool.false_and, Bool.or_false]
  | none =>
    rw [hnamed] at h
    obtain ⟨fed, hfed, h⟩ := bind_ok.mp h
    cases h
    obtain ⟨hframe, hfed⟩ := feedChannel_told hfed
    have htext : r.headerText = trimAscii r.header :=
      if_neg (by rw [hnamed]; decide)
    refine .next hframe.stage nofun ?_ (hframe.utf8.trans hpending)
      hframe.header ?_
    · intro ch hne
      have hch : ch = .content := by
        by_contra hother
        exact hne ((hframe.others ch hother).trans (hnone ch))
      rw [show fed.state.stage = .content from hframe.stage]
      exact ⟨rfl, hch⟩
    · have hall : ∀ ch, prior ch ++ fed.told ch = prior ch ++ f.told ch
          ++ if ch = .content then trimAscii (r.prompt ++ r.header)
            else [] := by
        intro ch
        rw [hfed, append_assoc]
        rfl
      cases hprompted : r.prompted with
      | false =>
        have hshown : trimAscii (r.prompt ++ r.header) = r.headerText := by
          unfold Reading.prompt
          rw [hprompted, htext]
          rfl
        rw [hshown] at hall
        exact (htold.publish .content r.headerText).congr
          ⟨rfl, rfl, or_false _⟩ hall
      | true =>
        have hshown : trimAscii (r.prompt ++ r.header)
            = trimAscii (ascii "assistant" ++ r.header) := by
          unfold Reading.prompt
          rw [hprompted]
          rfl
        rw [hshown] at hall
        refine Tells.congr (r := { r.publish .content r.headerText with
          exposes := true }) ⟨?_, ?_⟩ ⟨rfl, rfl, or_true _⟩ hall
        · rw [if_neg (by decide), append_nil]
          exact htold.reasoning
        · rw [htext]
          exact htold.content.expose (trimAscii_prompt r.header)

/-- Every token keeps the accounts. -/
theorem feedProtocolToken_accounts {token : TokenId} {bytes : Bytes}
    (hr : Accounts r prior f) (hwhole : (r.read token bytes).whole = true)
    (h : feedProtocolToken appendDelta policy n token bytes f = .ok f') :
    Accounts (r.read token bytes) prior f' := by
  unfold feedProtocolToken at h
  rw [hr.stage, if_neg hr.atem] at h
  unfold Reading.read at hwhole ⊢
  by_cases hstart : token = startToken
  · rw [if_pos hstart] at h hwhole ⊢
    exact closeAtemMessage_accounts nofun hr (Reading.endHeader_whole hwhole) h
  rw [if_neg hstart] at h hwhole ⊢
  by_cases hmessage : token = messageToken ∧ r.stage.isBody = false
  · rw [if_pos (hmessage.imp_right header_of_not_body.mpr)] at h
    rw [if_pos hmessage] at hwhole ⊢
    exact openAtemMessage_accounts hr hmessage.2
      ((and_eq_true_iff.mp hwhole).2) h
  rw [if_neg fun hm => hmessage (hm.imp_right header_of_not_body.mp)] at h
  rw [if_neg hmessage] at hwhole ⊢
  by_cases heom : token = eomToken
  · rw [if_pos heom] at h hwhole ⊢
    exact closeAtemMessage_accounts nofun hr (Reading.endHeader_whole hwhole) h
  rw [if_neg heom] at h ⊢
  exact feedTokenBytes_accounts hr h

/-- The header the generation ends in becomes content, with what the prompt
put in front of it. -/
theorem flushHeader_told (hr : Accounts r prior f)
    (hbody : r.stage.isBody = false) (hpending : f.state.utf8Pending = [])
    (h : flushHeader appendDelta policy n f = .ok f') :
    (∀ ch, ch ≠ .content → f'.state.stopPending ch = [])
      ∧ ∀ ch, f'.told ch = f.told ch
        ++ if ch = .content then r.prompt ++ r.header else [] := by
  have hheader : f.state.headerPending = r.prompt ++ r.header := by
    have hall := hr.header hbody
    rwa [hpending, append_nil] at hall
  have hnone := hr.held.nil (hr.stage ▸ hbody)
  unfold flushHeader at h
  rw [hheader] at h
  split at h
  · next hempty =>
    cases h
    refine ⟨fun ch _ => hnone ch, fun ch => ?_⟩
    rw [isEmpty_iff.mp hempty, ite_self, append_nil]
  · obtain ⟨fed, hfed, h⟩ := bind_ok.mp h
    cases h
    obtain ⟨hframe, htold⟩ := feedChannel_told hfed
    exact ⟨fun ch hch => (hframe.others ch hch).trans (hnone ch), htold⟩

/-- So the reading tells it, where that is right. -/
theorem Tells.finish (h : Tells r total) (hbody : r.stage.isBody = false) :
    Tells r.finish fun ch => total ch
      ++ if ch = .content then r.prompt ++ r.header else [] := by
  unfold Reading.finish
  rw [if_neg (by rw [hbody]; decide)]
  by_cases hright : r.prompted = false ∧ r.named = none
  · obtain ⟨hprompted, hnamed⟩ := hright
    have hshown : r.prompt ++ r.header = r.header := by
      unfold Reading.prompt
      rw [hprompted]
      rfl
    refine (h.publish .content r.header).congr ⟨?_, rfl, ?_⟩ fun ch => ?_
    · rw [hnamed]
      rfl
    · rw [hnamed, hprompted]
      exact (Bool.or_false _).trans (Bool.or_false _)
    · rw [hshown]
  · have hexposed : (r.exposes || r.prompted || r.named.isSome) = true := by
      cases hprompted : r.prompted with
      | true => rw [Bool.or_true, Bool.true_or]
      | false =>
        rw [Option.isSome_iff_ne_none.mpr fun hn => hright ⟨hprompted, hn⟩,
          Bool.or_true]
    have hlonger : (if r.named.isSome then [] else r.header).length
        < (r.prompt ++ r.header).length := by
      have hle : (if r.named.isSome then [] else r.header).length
          ≤ r.header.length := by
        split
        · exact Nat.zero_le _
        · exact Nat.le_refl _
      rw [length_append]
      cases hprompted : r.prompted with
      | true =>
        have hprompt : r.prompt.length = 9 := by
          unfold Reading.prompt
          rw [hprompted]
          rfl
        omega
      | false =>
        have hnamed : r.named.isSome = true :=
          Option.isSome_iff_ne_none.mpr fun hn => hright ⟨hprompted, hn⟩
        have hheader : r.header ≠ [] := by
          intro hnil
          unfold Reading.named Reading.prompt at hnamed
          rw [hprompted, hnil] at hnamed
          exact absurd hnamed (by decide)
        rw [if_pos hnamed]
        have := length_pos_iff.mpr hheader
        exact Nat.lt_of_lt_of_le this (Nat.le_add_left _ _)
    refine Tells.congr (r := { r.publish .content
        (if r.named.isSome then [] else r.header) with exposes := true })
      ⟨?_, ?_⟩ ⟨rfl, rfl, hexposed⟩ fun _ => rfl
    · rw [if_neg (by decide), append_nil]
      exact h.reasoning
    · exact h.content.expose hlonger

/-- At the end everything is published. -/
theorem terminalize_tells {state st : DecoderState}
    {emitted output : PublishedOutput} {best : Option StopMatch}
    (hr : Accounts r prior ⟨state, emitted, best⟩)
    (hwhole : r.finish.whole = true)
    (h : terminalize appendDelta policy n state emitted = .ok (st, output)) :
    Tells r.finish fun ch => prior ch ++ textOn ch output := by
  have hr : Accounts r prior ⟨state, emitted, none⟩ :=
    { hr with }
  obtain ⟨flushed, hflush, h⟩ := bind_ok.mp h
  have hsegment : isWhole r.segment = true := by
    unfold Reading.finish at hwhole
    split at hwhole
    · exact (and_eq_true_iff.mp hwhole).2
    · exact (and_eq_true_iff.mp hwhole).2
  obtain rfl := Except.ok.inj ((hr.flush hsegment).symm.trans hflush)
  obtain ⟨closed, hclosed, h⟩ := bind_ok.mp h
  obtain ⟨-, rfl⟩ := Prod.mk.inj (Except.ok.inj h)
  have hstage : state.stage = r.stage := hr.stage
  have hpublished : ∀ ch, closed.state.stopPending ch = [] →
      textOn ch closed.emitted = closed.told ch := by
    intro ch hnone
    unfold Feed.told
    rw [hnone, append_nil]
  have htold := hr.told hsegment
  unfold flushStage at hclosed
  cases hbody : r.stage.isBody with
  | true =>
    rw [if_neg (by rw [header_of_not_body, hstage, hbody]; decide)] at hclosed
    obtain ⟨-, hnone, hsame⟩ := closeBody_told hr.held
      ((if_pos (hstage ▸ hbody)).trans hclosed)
    have hfinish : r.finish = r.next r.stage := if_pos hbody
    rw [hfinish]
    refine htold.congr ⟨rfl, rfl, rfl⟩ fun ch => ?_
    rw [hpublished ch (hnone ch), hsame]
  | false =>
    rw [if_pos (header_of_not_body.mpr (hstage ▸ hbody))] at hclosed
    obtain ⟨fed, hfed, hclosed⟩ := bind_ok.mp hclosed
    obtain ⟨hothers, hall⟩ := flushHeader_told hr hbody (hr.pending hsegment) hfed
    obtain ⟨hframe, hnone, hsame⟩ := closeChannel_told hclosed
    refine (htold.finish hbody).congr ⟨rfl, rfl, rfl⟩ fun ch => ?_
    have hempty : closed.state.stopPending ch = [] := by
      by_cases hch : ch = .content
      · rw [hch, hnone]
      · rw [hframe.others ch hch, hothers ch hch]
    rw [hpublished ch hempty, hsame, hall, append_assoc]

end

-- ============ the tokens

variable {r : Reading}

theorem Reading.read_whole {token : TokenId} {bytes : Bytes}
    (h : (r.read token bytes).whole = true) : r.whole = true := by
  have hend : ∀ stage, (r.endHeader.next stage).whole = true →
      r.whole = true := by
    intro stage h
    unfold endHeader at h
    split at h
    · exact (and_eq_true_iff.mp h).1
    · exact (and_eq_true_iff.mp h).1
  unfold read at h
  split at h
  · exact hend _ h
  split at h
  · exact (and_eq_true_iff.mp h).1
  split at h
  · exact hend _ h
  unfold take at h
  split at h
  · exact h
  · exact h

theorem Reading.finish_whole (h : r.finish.whole = true) : r.whole = true := by
  unfold finish at h
  split at h
  · exact (and_eq_true_iff.mp h).1
  · exact (and_eq_true_iff.mp h).1

theorem Reading.readAll_whole {policy : StopPolicy}
    {bytes : TokenId → Bytes} : ∀ {tokens : List TokenId} {r : Reading},
      (r.readAll policy bytes tokens).whole = true → r.whole = true := by
  intro tokens
  induction tokens with
  | nil => exact finish_whole
  | cons token rest ih =>
    intro r h
    unfold readAll at h
    split at h
    · split at h
      · exact read_whole (finish_whole h)
      · exact finish_whole h
    · exact read_whole (ih h)

section

variable {s : SessionOptions} {n budget : Nat} {r : Reading}
  {prior : OutputChannel → Bytes} {state st : DecoderState}
  {emitted output : PublishedOutput} {reason : FinishReason}

/-- Accounts do not depend on the match, nor on how many tokens there
were. -/
theorem Accounts.of_state {f f' : Feed} (hr : Accounts r prior f)
    (hemitted : f'.emitted = f.emitted)
    (hstate : f'.state = f.state ∨ f'.state = countToken f.state) :
    Accounts r prior f' := by
  obtain ⟨state', emitted', best'⟩ := f'
  obtain rfl : emitted' = f.emitted := hemitted
  rcases hstate with h | h
  · obtain rfl : state' = f.state := h
    exact { hr with }
  · obtain rfl : state' = countToken f.state := h
    have hcount : countToken f.state = f.state
        ∨ ∃ count, countToken f.state
          = { f.state with reasoningTokens := count } := by
      unfold countToken
      split
      · exact Or.inr ⟨_, rfl⟩
      · exact Or.inl rfl
    rcases hcount with heq | ⟨count, heq⟩
    · rw [heq]
      exact { hr with }
    · rw [heq]
      exact { hr with }

/-- A turn of the loop: the token is read, or it is the end. -/
theorem previewToken_accounts {token : TokenId} {step : TokenStep}
    (hr : Accounts r prior ⟨state, emitted, none⟩)
    (h : previewToken appendDelta s n state emitted token = .ok step) :
    match step with
    | .next st output => token ∉ s.policy.tokenIds
      ∧ ((r.read token (tokenBytes s token)).whole = true →
        Accounts (r.read token (tokenBytes s token)) prior ⟨st, output, none⟩)
    | .finish _ output reason => reason ≠ .stopString →
      reason ≠ .none ∧ ∀ rest,
        (r.readAll s.policy (tokenBytes s) (token :: rest)).whole = true →
        Tells (r.readAll s.policy (tokenBytes s) (token :: rest))
        fun ch => prior ch ++ textOn ch output := by
  have hcounted : ∀ best, Accounts r prior ⟨countToken state, emitted, best⟩ :=
    fun best => hr.of_state rfl (Or.inr rfl)
  unfold previewToken at h
  obtain ⟨-, h⟩ := guard_ok.mp h
  split at h
  · next hhidden =>
    obtain ⟨⟨st, output⟩, hend, h⟩ := bind_ok.mp h
    cases h
    refine fun _ => ⟨nofun, fun rest hwhole => ?_⟩
    have hread : r.readAll s.policy (tokenBytes s) (token :: rest)
        = r.finish := by
      unfold Reading.readAll
      rw [if_pos hhidden.1, hhidden.2, if_neg (by decide)]
    rw [hread] at hwhole ⊢
    exact terminalize_tells (hcounted none) hwhole hend
  · next hshown =>
    obtain ⟨bytes, hbytes, h⟩ := bind_ok.mp h
    obtain ⟨fed, hfed, h⟩ := bind_ok.mp h
    have htoken : tokenBytes s token = bytes := by
      unfold tokenBytes
      rw [hbytes]
    have hread : (r.read token bytes).whole = true →
        Accounts (r.read token bytes) prior fed :=
      fun hwhole => feedProtocolToken_accounts (hcounted _) hwhole hfed
    split at h
    · cases h
      exact fun hne => absurd rfl hne
    split at h
    · next hstop =>
      obtain ⟨⟨st, output⟩, hend, h⟩ := bind_ok.mp h
      cases h
      refine fun _ => ⟨nofun, fun rest hwhole => ?_⟩
      have hall : r.readAll s.policy (tokenBytes s) (token :: rest)
          = (r.read token bytes).finish := by
        unfold Reading.readAll
        rw [if_pos hstop, htoken, if_pos]
        by_contra hhide
        exact hshown ⟨hstop, not_eq_true _ ▸ hhide⟩
      rw [hall] at hwhole ⊢
      have hlast : Accounts (r.read token bytes) prior ⟨fed.state, fed.emitted, none⟩ :=
        (hread (Reading.finish_whole hwhole)).of_state rfl (Or.inl rfl)
      exact terminalize_tells hlast hwhole hend
    · next hgo =>
      cases h
      rw [htoken]
      exact ⟨hgo, fun hwhole => (hread hwhole).of_state rfl (Or.inl rfl)⟩

/-- A round: its tokens are read, or it is the end. -/
theorem previewLoop_accounts (hreason : reason ≠ .none) :
    ∀ (tokens more : List TokenId) {n : Nat} {state : DecoderState}
      {emitted : PublishedOutput} {r : Reading} {d : OutputDecision},
      Accounts r prior ⟨state, emitted, none⟩ →
      n + (tokens ++ more).length ≤ budget →
      (r.readAll s.policy (tokenBytes s) (tokens ++ more)).whole = true →
      previewLoop appendDelta s budget reason n state emitted tokens
        = .ok (st, output, d) → d.finishReason ≠ .stopString →
      (d.finishReason = .none → ∃ r', Accounts r' prior ⟨st, output, none⟩
        ∧ d.acceptedTokens = n + tokens.length
        ∧ r.readAll s.policy (tokenBytes s) (tokens ++ more)
        = r'.readAll s.policy (tokenBytes s) more)
      ∧ (d.finishReason ≠ .none →
        Tells (r.readAll s.policy (tokenBytes s) (tokens ++ more))
        fun ch => prior ch ++ textOn ch output) := by
  intro tokens more
  induction tokens with
  | nil =>
    intro n state emitted r d hr hle hwhole h hne
    rw [nil_append] at hle hwhole ⊢
    unfold previewLoop at h
    split at h
    · next hlast =>
      obtain ⟨⟨st', output'⟩, hend, h⟩ := bind_ok.mp h
      cases Except.ok.inj h
      obtain rfl : more = [] := length_eq_zero_iff.mp (by omega)
      exact ⟨fun h => absurd h hreason,
        fun _ => terminalize_tells hr hwhole hend⟩
    · cases Except.ok.inj h
      exact ⟨fun _ => ⟨r, hr, rfl, rfl⟩, fun h => absurd rfl h⟩
  | cons token rest ih =>
    intro n state emitted r d hr hle hwhole h hne
    unfold previewLoop at h
    obtain ⟨step, hstep, h⟩ := bind_ok.mp h
    have hread := previewToken_accounts hr hstep
    cases step with
    | finish st' output' reason' =>
      cases Except.ok.inj h
      obtain ⟨hends, htells⟩ := hread hne
      exact ⟨fun h => absurd h hends, fun _ => htells _ hwhole⟩
    | next st' output' =>
      obtain ⟨hgo, hread⟩ := hread
      have hnext : r.readAll s.policy (tokenBytes s) (token :: rest ++ more)
          = (r.read token (tokenBytes s token)).readAll s.policy
            (tokenBytes s) (rest ++ more) := if_neg hgo
      rw [hnext] at hwhole ⊢
      obtain ⟨hmore, hend⟩ := ih (hread (Reading.readAll_whole hwhole))
        (by rw [cons_append, length_cons] at hle; omega)
        hwhole h hne
      refine ⟨fun hnone => ?_, hend⟩
      obtain ⟨r', hr', haccepted, heq⟩ := hmore hnone
      refine ⟨r', hr', ?_, heq⟩
      rw [haccepted, length_cons]
      omega

/-- What is committed is what was told before. -/
theorem Accounts.commit (hr : Accounts r prior ⟨st, output, none⟩) :
    Accounts r (fun ch => prior ch ++ textOn ch output) ⟨st, [], none⟩ :=
  ⟨hr.stage, hr.atem, hr.held, hr.scanned, hr.header,
    hr.tells.congr ⟨rfl, rfl, rfl⟩ fun ch => by
      unfold Feed.told
      rw [← append_assoc (prior ch)]
      rfl⟩

/-- What a preview that returns has computed. -/
theorem preview_ok {s previewed : OutputSession} {tokens : List TokenId}
    {d : OutputDecision} (h : s.preview tokens budget reason
      = .ok (d, previewed)) :
    reason ≠ .none ∧ ∃ st output,
      previewLoop appendDelta s.toSessionOptions budget reason 0 s.state []
        tokens = .ok (st, output, d)
      ∧ previewed.commitPreview.1 = output
      ∧ previewed.commitPreview.2.state = st
      ∧ previewed.commitPreview.2.toSessionOptions
        = s.toSessionOptions := by
  unfold OutputSession.preview at h
  obtain ⟨-, h⟩ := guard_ok.mp h
  obtain ⟨-, h⟩ := guard_ok.mp h
  obtain ⟨-, h⟩ := guard_ok.mp h
  obtain ⟨-, h⟩ := guard_ok.mp h
  obtain ⟨hlimit, h⟩ := guard_ok.mp h
  obtain ⟨⟨st, output, d⟩, hloop, h⟩ := bind_ok.mp h
  cases h
  refine ⟨?_, st, output, hloop, rfl, rfl, rfl⟩
  rintro rfl
  exact hlimit ⟨nofun, nofun⟩

/-- A generation: what it publishes is told of all its tokens. -/
theorem feedRounds_tells : ∀ (rounds : List (List TokenId))
    {s : OutputSession} {budget : Nat} {r : Reading}
    {prior : OutputChannel → Bytes} {result : SessionResult},
    Accounts r prior ⟨s.state, [], none⟩ →
    rounds.flatten.length ≤ budget →
    (r.readAll s.policy (tokenBytes s.toSessionOptions)
      rounds.flatten).whole = true →
    feedRounds reason s budget rounds = .ok result →
    result.finishReason ≠ .none → result.finishReason ≠ .stopString →
    Tells (r.readAll s.policy (tokenBytes s.toSessionOptions)
        rounds.flatten) fun ch => prior ch ++ match ch with
        | .content => result.content
        | .reasoning => result.reasoning := by
  intro rounds
  induction rounds with
  | nil =>
    intro s budget r prior result _ _ _ h hended
    cases h
    exact absurd rfl hended
  | cons round rest ih =>
    intro s budget r prior result hr hle hwhole h hended hstop
    rw [flatten_cons] at hle hwhole ⊢
    rw [feedRounds] at h
    obtain ⟨⟨d, previewed⟩, hpreview, h⟩ := bind_ok.mp h
    obtain ⟨hreason, st, output, hloop, houtput, hstate, hoptions⟩ :=
      preview_ok hpreview
    have hround := previewLoop_accounts hreason round rest.flatten hr
      (by omega) hwhole hloop
    dsimp only at h
    rw [houtput] at h
    split at h
    · next hfinished =>
      cases h
      refine ((hround hstop).2 hended).congr ⟨rfl, rfl, rfl⟩ fun ch => ?_
      cases ch with
      | content => exact congrArg (prior .content ++ ·) (append_nil _)
      | reasoning =>
        exact congrArg (prior .reasoning ++ ·) (append_nil _)
    · next hgo =>
      obtain ⟨tail, htail, h⟩ := bind_ok.mp h
      cases h
      have hnone : d.finishReason = .none := by
        unfold OutputDecision.finished at hgo
        simpa using hgo
      obtain ⟨r', hr', haccepted, hread⟩ :=
        (hround (by rw [hnone]; decide)).1 hnone
      rw [hread] at hwhole ⊢
      have hnext := @ih previewed.commitPreview.2 (budget - d.acceptedTokens) r'
        (fun ch => prior ch ++ textOn ch output) tail
      rw [show previewed.commitPreview.2.policy = s.policy from
        congrArg SessionOptions.policy hoptions, hoptions, hstate] at hnext
      rw [length_append] at hle
      refine (hnext hr'.commit (by omega) hwhole htail hended hstop).congr
        ⟨rfl, rfl, rfl⟩ fun ch => ?_
      cases ch with
      | content => exact (append_assoc _ _ _).symm
      | reasoning => exact (append_assoc _ _ _).symm

end

/-- Of whole characters that hit no stop string a generation publishes the
text of its bodies and of the headers that are none: if nothing is exposed,
exactly when nothing is dropped, and if nothing is dropped, exactly when
nothing is exposed. -/
theorem output_exact_iff (tokenizer : Tokenizer) (policy : StopPolicy)
    (preserve : Bool) (reason : FinishReason) (budget : Nat)
    (rounds : List (List TokenId)) (hle : rounds.flatten.length ≤ budget)
    {result : SessionResult}
    (h : feedRounds reason (.make tokenizer policy false preserve true)
      budget rounds = .ok result)
    (hended : result.finishReason ≠ .none)
    (hstop : result.finishReason ≠ .stopString)
    (hwhole : (Reading.start.readAll policy
      (tokenBytes ⟨tokenizer, policy, preserve⟩) rounds.flatten).whole = true) :
    let r := Reading.start.readAll policy
      (tokenBytes ⟨tokenizer, policy, preserve⟩) rounds.flatten
    let same := result.content = r.text .content
      ∧ result.reasoning = r.text .reasoning
    (r.exposes = false → (same ↔ r.drops = false))
      ∧ (r.drops = false → (same ↔ r.exposes = false)) := by
  have hstart : Accounts .start (fun _ => []) ⟨.start true, [], none⟩ := {
    stage := rfl
    atem := nofun
    held := held_start true
    scanned := ⟨[], rfl, rfl⟩
    header := fun _ => rfl
    tells := ⟨rfl, 0, 0, rfl, by decide, by decide, fun _ _ => rfl⟩ }
  have htells := feedRounds_tells rounds hstart hle hwhole h hended hstop
  obtain ⟨hdrops, hexposes⟩ := htells.content.exact
  have hreasoning := htells.reasoning
  exact ⟨fun he => (and_iff_left hreasoning).trans (hdrops he),
    fun hd => (and_iff_left hreasoning).trans (hexposes hd)⟩

/-- Text behind a message that nothing makes a message of is dropped, and
of a generation that ends in its first header the prompt's is published. -/
theorem output_not_exact :
    (∃ result, feedRounds .outputLimit
        (.make atemTokenizer ⟨[], [], false⟩ false false true) 4
        [[200023, 200007, 0x61, 200022]] = .ok result
      ∧ result.content = []
      ∧ ((Reading.start.readAll ⟨[], [], false⟩
          (tokenBytes ⟨atemTokenizer, ⟨[], [], false⟩, false⟩)
          [200023, 200007, 0x61, 200022]).text .content = ascii "a"))
    ∧ ∃ result, feedRounds .outputLimit
        (.make atemTokenizer ⟨[], [], false⟩ false false true) 1 [[1]]
          = .ok result
      ∧ result.content = ascii "assistant to=self" :=
  ⟨⟨_, rfl, rfl, by decide⟩, _, rfl, rfl⟩

/-- Reasoning, and content behind it. -/
theorem output_exact_two :
    ∃ result, feedRounds .outputLimit
        (.make atemTokenizer ⟨[], [], false⟩ false false true) 8
        [threeMessages.take 8] = .ok result
      ∧ result.content = ascii "b" ∧ result.reasoning = ascii "a" := by
  refine ⟨_, rfl, ?_⟩
  exact ((output_exact_iff atemTokenizer ⟨[], [], false⟩ false .outputLimit 8
    [threeMessages.take 8] (by decide) rfl (by decide) (by decide)
    (by decide)).1 (by decide)).mpr (by decide)

end Ginfer.Muse
