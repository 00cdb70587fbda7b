/-
A rewrite checkpoint is an exact token prefix.

The template sets its checkpoint right before a `<think>` or at the end
of the text, and always behind a `<|im_start|>` (`render_cut`). Both are
without pads and open and close with brackets, so they are still there
when the placeholders are expanded (`CutAt.expand`). Where both are added
tokens, and none lies across the checkpoint, the encoder has come to the
end of a piece there: what it has written is what it writes for the text
in front (`encodeFrom_cut`), and is not empty (`encodeFrom_ne_nil`).

So `encode_rendered_chat` throws what encoding the text throws, a symbol
outside the vocabulary say, and nothing else while the frontier fits its
`uint32`.
-/
import Ginfer.Frontend.Proofs.ChatTemplate
import Ginfer.Frontend.Proofs.Positions
import Ginfer.Frontend.Proofs.Relocation
import Ginfer.Frontend.Proofs.Tokenizer

namespace Ginfer.Frontend.Multimodal

open Ginfer.Lib Ginfer.Lib.Outcome List
open Ginfer.Frontend.ChatTemplate
open Ginfer.Frontend.Vocabulary (encode_ne_nil firstMatch_some matchToken_eq)
open Ginfer.Qwen (PromptModality VisionItem)

-- ============ the template's cut

/-- The tag that opens a message. -/
def messageStart : Bytes := ascii "<|im_start|>"

/-- The tag that opens the reasoning. -/
def thinkOpen : Bytes := ascii "<think>"

/-- What stands at a checkpoint: a message has been opened in front of it,
and it is the end of the text or opens the reasoning. -/
def CutAt (text : Bytes) (offset : Nat) : Prop :=
  ∃ front back rest, text = front ++ (messageStart ++ back) ++ rest
    ∧ (front ++ (messageStart ++ back)).length = offset
    ∧ (rest = [] ∨ thinkOpen <+: rest)

/-- The reasoning is opened at a place of the text. -/
def OpensThinking (text : Bytes) (offset : Nat) : Prop :=
  ∃ front back rest, text = front ++ (messageStart ++ back) ++ rest
    ∧ (front ++ (messageStart ++ back)).length = offset
    ∧ thinkOpen <+: rest

variable {text : Bytes} {offset : Nat}

theorem OpensThinking.cut
    (h : OpensThinking text offset) : CutAt text offset := by
  obtain ⟨front, back, rest, htext, hoffset, hrest⟩ := h
  exact ⟨front, back, rest, htext, hoffset, .inr hrest⟩

theorem OpensThinking.extend {more : Bytes}
    (h : OpensThinking text offset) (hmore : text <+: more) :
    OpensThinking more offset := by
  obtain ⟨front, back, rest, rfl, hoffset, hrest⟩ := h
  obtain ⟨later, rfl⟩ := hmore
  exact ⟨front, back, rest ++ later, by simp only [append_assoc],
    hoffset, hrest.trans (prefix_append _ _)⟩

/-- Behind the header of an answer. -/
theorem opensThinking_header (text : Bytes) {rest : Bytes}
    (h : thinkOpen <+: rest) :
    OpensThinking (text ++ assistantHeader ++ rest)
      (text ++ assistantHeader).length :=
  ⟨text, ascii "assistant\n", rest, rfl, rfl, h⟩

variable {lib : JsonLibrary} {semantics : ChatTemplateSemantics}
  {ctx : RenderContext} {options : ChatRenderOptions}
  {M : List ChatMessage} {q : Nat}

/-- The loop's checkpoint, where it is set. -/
def LoopCut (s : RenderState) : Prop :=
  ∀ c, s.rewriteCheckpoint = some c → OpensThinking s.rendered c.offset

variable {s : RenderState}

/-- A message sets it in front of its reasoning. -/
theorem renderByRole_cut {t : RenderState} {message : ChatMessage}
    {i : Nat} {content : Bytes} (hs : LoopCut s)
    (h : renderByRole lib ctx M q s message i content = .ok t) :
    LoopCut t := by
  intro c hc
  cases hset : s.rewriteCheckpoint with
  | some c' =>
    obtain ⟨hext, hkeeps, -⟩ := renderByRole_extends h
    have hne : s.rewriteCheckpoint ≠ none := by
      rw [hset]
      exact Option.some_ne_none c'
    rw [hkeeps (.inl hne)] at hc
    exact (hs c hc).extend hext
  | none =>
    by_cases hrole : message.role = .assistant
    · obtain ⟨body, hbody, rfl⟩ := renderByRole_assistant hrole h
      dsimp only at hc ⊢
      rw [hset] at hc
      split at hc
      · next hafter =>
        unfold turnClosure at hc
        split at hc
        · cases hc
          refine opensThinking_header s.rendered ?_
          unfold renderAssistantBody at hbody
          obtain ⟨calls, -, hbody⟩ := bind_ok.mp hbody
          cases hbody
          rw [decide_eq_true hafter, Bool.or_true, if_pos rfl]
          simp only [append_assoc]
          exact List.prefix_append (ascii "<think>") _
        · cases hc
      · cases hc
    · obtain ⟨text, htext, -⟩ := renderByRole_plain lib ctx M [] q q i
        content hrole
      rw [htext s] at h
      cases h
      rw [hset] at hc
      cases hc

theorem renderMessage_cut {t : RenderState} {entry : ChatMessage × Nat}
    (hs : LoopCut s) (h : renderMessage lib ctx M q s entry = .ok t) :
    LoopCut t := by
  obtain ⟨message, i⟩ := entry
  by_cases hbegin : i < ctx.messageBegin
  · unfold renderMessage at h
    rw [if_pos hbegin] at h
    cases h
    exact hs
  · obtain ⟨content, images, videos, -, hrole⟩ := renderMessage_ok h hbegin
    have hcounted : LoopCut
        { s with imageCount := images, videoCount := videos } :=
      fun c hc => hs c hc
    exact renderByRole_cut hcounted hrole

theorem loop_cut (entries : List (ChatMessage × Nat)) :
    ∀ {s t : RenderState}, LoopCut s →
      entries.foldlM (renderMessage lib ctx M q) s = .ok t →
      LoopCut t := by
  induction entries with
  | nil =>
    intro s t hs h
    cases h
    exact hs
  | cons entry rest ih =>
    intro s t hs h
    rw [foldlM_cons] at h
    obtain ⟨next, hnext, h⟩ := bind_ok.mp h
    exact ih (renderMessage_cut hs hnext) h

/-- At the generation prompt, reasoning preserved: the whole text. -/
theorem finishRender_replay (hadd : options.addGenerationPrompt = true) :
    (finishRender options true s).rewriteCheckpoint
      = some ⟨.responseReplay, (finishRender options true s).text.length⟩ := by
  unfold finishRender
  rw [if_pos hadd]
  rfl

theorem prologue_opens (options : ChatRenderOptions) :
    thinkOpen <+: generationPrologue options := by
  unfold generationPrologue
  split
  · exact List.prefix_append (ascii "<think>") (ascii "\n")
  · exact List.prefix_append (ascii "<think>") (ascii "\n\n</think>\n\n")

variable {c : RewriteCheckpointByteSpec}

/-- Where a rendering has its checkpoint. -/
theorem render_cut {r : RenderedChat}
    (h : render lib semantics M options = .ok r)
    (hc : r.rewriteCheckpoint = some c) : CutAt r.text c.offset := by
  obtain ⟨first, -, messageBegin, leading, rendered, -, heq⟩ := render_ok h
  have hM := heq []
  rw [append_nil] at hM
  rw [hM] at h
  obtain ⟨q, -, hloop⟩ := bind_ok.mp h
  obtain ⟨s, hs, hdone⟩ := bind_ok.mp hloop
  cases hdone
  have hcut : LoopCut s := loop_cut _ (fun c hnone => by cases hnone) hs
  rcases finishRender_checkpoint hc with hset | ⟨hadd, htext, hno, -⟩
  · exact ((hcut c hset).extend (finishRender_extends _ _ s)).cut
  · cases hpreserve : preserves semantics options with
    | false =>
      obtain ⟨-, rfl⟩ := hno hpreserve
      rw [hpreserve] at htext
      rw [htext]
      exact (opensThinking_header s.rendered (prologue_opens options)).cut
    | true =>
      rw [hpreserve, finishRender_replay hadd] at hc
      rw [hpreserve] at htext
      cases hc
      dsimp only
      rw [htext]
      refine ⟨s.rendered,
        ascii "assistant\n" ++ generationPrologue options, [], ?_, ?_,
        .inl rfl⟩
      · rw [append_nil, append_assoc]
        rfl
      · rw [append_assoc]
        rfl

-- ============ the expanded cut

/-- What has no pad and stands between brackets. -/
structure Tag (tag : Bytes) : Prop where
  opens : tag.head? = some 0x3c
  closes : tag.getLast? = some 0x3e
  plain : ∀ j, ∀ m, ¬ OccursAt (padOf m) tag j

variable {tag : Bytes}

/-- A tag is shorter than a pad. -/
theorem tag_of_short (hopens : tag.head? = some 0x3c)
    (hcloses : tag.getLast? = some 0x3e) (hshort : tag.length < 13) :
    Tag tag where
  opens := hopens
  closes := hcloses
  plain j m hocc := by
    have hle := hocc.length_le (padOf_framed m).ne_nil
    have hlength : (padOf m).length = 13 := by cases m <;> rfl
    omega

theorem messageStart_tag : Tag messageStart :=
  tag_of_short rfl rfl (by decide)

theorem thinkOpen_tag : Tag thinkOpen := tag_of_short rfl rfl (by decide)

variable {back out : Bytes} {items : List VisionItem}

/-- A tag in front of the text is in front of its expansion. -/
theorem Tag.expand_front
    (htag : Tag tag) (h : expandRest items (tag ++ back) = .ok out) :
    tag <+: out := by
  obtain ⟨items₁, items₂, tag', back', -, hfront, -, rfl, -⟩ :=
    expandFrom_checkpoint .turnClosure items [] tag out
      (.inl (.inr htag.closes)) h
  obtain ⟨-, rfl⟩ := expandRest_plain htag.plain hfront
  exact prefix_append _ _

variable {front : Bytes}

/-- A tag in a text is in its expansion. -/
theorem Tag.expand_inside (htag : Tag tag)
    (h : expandRest items (front ++ (tag ++ back)) = .ok out) :
    ∃ front' back', out = front' ++ (tag ++ back') := by
  have hne : tag ≠ [] := by
    rintro rfl
    cases htag.opens
  have hapart : Apart front (tag ++ back) := by
    refine .inr (.inr ?_)
    rw [List.head?_append_of_ne_nil _ hne, htag.opens]
  obtain ⟨items₁, items₂, front', back', -, -, hback, rfl, -⟩ :=
    expandFrom_checkpoint .turnClosure items [] front out hapart h
  obtain ⟨back'', rfl⟩ := htag.expand_front hback
  exact ⟨front', back'', rfl⟩

/-- The expansion takes the cut to the end of what stands in front of
it. -/
theorem CutAt.expand (hcut : CutAt text offset) (kind : RewriteCheckpointKind)
    (h : expandRest items text = .ok out) :
    ∃ items₁ items₂ offset', items = items₁ ++ items₂
      ∧ expandPlaceholders ⟨text, some ⟨kind, offset⟩⟩ items
        = .ok ⟨out, some ⟨kind, offset'⟩⟩
      ∧ expandRest items₁ (text.take offset) = .ok (out.take offset')
      ∧ CutAt out offset' := by
  obtain ⟨front, back, rest, rfl, rfl, hrest⟩ := hcut
  have hapart : Apart (front ++ (messageStart ++ back)) rest := by
    refine .inr ?_
    rcases hrest with rfl | ⟨more, rfl⟩
    · exact .inl rfl
    · exact .inr rfl
  obtain ⟨items₁, items₂, before, behind, hitems, hfront, hback, rfl, hloop⟩ :=
    expandFrom_checkpoint kind items [] _ out hapart h
  refine ⟨items₁, items₂, before.length, hitems, hloop, ?_, ?_⟩
  · rw [take_left' rfl, take_left' rfl]
    exact hfront
  · obtain ⟨front', back', rfl⟩ := messageStart_tag.expand_inside hfront
    refine ⟨front', back', behind, rfl, rfl, ?_⟩
    rcases hrest with rfl | ⟨more, rfl⟩
    · refine .inl (expandRest_plain (fun j m hocc => ?_) hback).2
      have hle := hocc.length_le (padOf_framed m).ne_nil
      have hpos := length_pos_iff.mpr (padOf_framed m).ne_nil
      rw [length_nil] at hle
      omega
    · exact .inr (thinkOpen_tag.expand_front hback)

-- ============ the encoder's cut

variable {v : Vocabulary} {u : UnicodeTables}

/-- An added token lies across a place of the text. -/
def Straddles (v : Vocabulary) (text : Bytes) (offset : Nat) : Prop :=
  ∃ token ∈ v.added, ∃ i, i < offset ∧ offset < i + (encode token.content).length
    ∧ OccursAt (encode token.content) text i

instance (v : Vocabulary) (text : Bytes) (offset : Nat) :
    Decidable (Straddles v text offset) :=
  inferInstanceAs (Decidable (∃ token ∈ v.added, ∃ i, i < offset
    ∧ offset < i + (encode token.content).length
    ∧ encode token.content <+: text.drop i))

/-- Every added token that begins in front of the cut ends there. -/
def Within (v : Vocabulary) (front back : Bytes) : Prop :=
  ∀ token ∈ v.added, ∀ i < front.length,
    OccursAt (encode token.content) (front ++ back) i →
    i + (encode token.content).length ≤ front.length

theorem within_of_not_straddles (h : ¬ Straddles v (front ++ back) front.length) :
    Within v front back := by
  intro token hmem i hi hocc
  by_contra hlong
  exact h ⟨token, hmem, i, hi, Nat.lt_of_not_le hlong, hocc⟩

theorem Within.drop (h : Within v front back)
    {n : Nat} (hn : n ≤ front.length) : Within v (front.drop n) back := by
  intro token hmem i hi hocc
  rw [length_drop] at hi ⊢
  have hwhole : OccursAt (encode token.content) (front ++ back) (n + i) := by
    unfold OccursAt at hocc ⊢
    rw [← drop_drop, drop_append_of_le_length hn]
    exact hocc
  have hle := h token hmem (n + i) (by omega) hwhole
  omega

/-- The first token at the front is the first in the whole text. -/
theorem firstMatch_cut (h : Within v front back) (hne : front ≠ []) :
    firstMatch v.added (front ++ back) = firstMatch v.added front := by
  have hpos := length_pos_iff.mpr hne
  have hsame : ∀ token ∈ v.added,
      (encode token.content).isPrefixOf (front ++ back)
        = (encode token.content).isPrefixOf front := by
    intro token hmem
    rw [Bool.eq_iff_iff, isPrefixOf_iff_prefix, isPrefixOf_iff_prefix]
    constructor
    · intro hpre
      have hle := h token hmem 0 hpos hpre
      rw [zero_add] at hle
      exact prefix_of_prefix_length_le hpre (prefix_append _ _) hle
    · exact fun hpre => hpre.trans (prefix_append _ _)
  unfold firstMatch
  generalize v.added = added at hsame
  induction added with
  | nil => rfl
  | cons token added ih =>
    rw [List.find?_cons, List.find?_cons, hsame token mem_cons_self,
      ih fun t ht => hsame t (.tail _ ht)]

theorem encodeFrom_nil (fuel : Nat) (ordinary : Bytes) :
    v.encodeFrom u fuel ordinary [] = v.bpeIds u ordinary := by
  cases fuel with
  | zero => rfl
  | succ fuel => rfl

/-- Where a piece ends at the cut, the ids of the front come first. -/
theorem encodeFrom_cut
    (hback : back = [] ∨ ∃ token, firstMatch v.added back = some token) :
    ∀ (fuel : Nat) (fuel' : Nat) (ordinary front : Bytes) (ids : List TokenId),
      front.length + back.length ≤ fuel → front.length ≤ fuel' →
      Within v front back →
      v.encodeFrom u fuel ordinary (front ++ back) = .ok ids →
      ∃ before after, v.encodeFrom u fuel' ordinary front = .ok before
        ∧ ids = before ++ after := by
  intro fuel
  induction fuel with
  | zero =>
    intro fuel' ordinary front ids hfuel _ _ h
    obtain rfl : front = [] := length_eq_zero_iff.mp (by omega)
    obtain rfl : back = [] := length_eq_zero_iff.mp (by omega)
    rw [append_nil, encodeFrom_nil] at h
    exact ⟨ids, [], (encodeFrom_nil fuel' ordinary).trans h,
      (append_nil ids).symm⟩
  | succ fuel ih =>
    intro fuel' ordinary front ids hfuel hfuel' hwithin h
    cases front with
    | nil =>
      rw [nil_append] at h
      rcases hback with rfl | ⟨token, htoken⟩
      · rw [encodeFrom_nil] at h
        exact ⟨ids, [], (encodeFrom_nil fuel' ordinary).trans h,
          (append_nil ids).symm⟩
      · cases back with
        | nil =>
          obtain ⟨-, _, -, hshort⟩ := firstMatch_some htoken
          exact absurd hshort (Nat.not_lt_zero _)
        | cons byte rest =>
          rw [Vocabulary.encodeFrom, matchToken_eq, htoken] at h
          dsimp only at h
          rw [encodeFrom_nil]
          cases hids : v.bpeIds u ordinary with
          | error e =>
            rw [hids] at h
            cases h
          | ok before =>
            rw [hids] at h
            obtain ⟨more, -, rfl⟩ := map_ok.mp h
            exact ⟨before, _, rfl, rfl⟩
    | cons byte front =>
      obtain ⟨fuel', rfl⟩ : ∃ n, fuel' = n + 1 :=
        ⟨fuel' - 1, by rw [length_cons] at hfuel'; omega⟩
      rw [length_cons] at hfuel hfuel'
      have hmatch := firstMatch_cut hwithin (cons_ne_nil byte front)
      rw [cons_append] at h hmatch
      rw [Vocabulary.encodeFrom, matchToken_eq, hmatch] at h
      rw [Vocabulary.encodeFrom, matchToken_eq]
      cases hfirst : firstMatch v.added (byte :: front) with
      | none =>
        rw [hfirst] at h
        dsimp only at h ⊢
        exact ih fuel' (ordinary ++ [byte]) front ids (by omega)
          (by omega) (hwithin.drop (n := 1) (by simp)) h
      | some token =>
        rw [hfirst] at h
        dsimp only at h ⊢
        obtain ⟨hmem, after, hafter, hshort⟩ := firstMatch_some hfirst
        rw [length_cons] at hshort
        have hlen : (encode token.content).length
            ≤ (byte :: front).length := by
          rw [hafter, length_append]
          omega
        have hdropped : (byte :: front).drop
            (encode token.content).length = after := by
          rw [hafter, drop_left' rfl]
        cases hids : v.bpeIds u ordinary with
        | error e =>
          rw [hids] at h
          cases h
        | ok begun =>
          rw [hids] at h
          dsimp only at h ⊢
          rw [← cons_append, drop_append_of_le_length hlen, hdropped] at h
          obtain ⟨more, hmore, rfl⟩ := map_ok.mp h
          have hwithin' := hwithin.drop hlen
          rw [hdropped] at hwithin'
          obtain ⟨before, later, hbefore, rfl⟩ := ih fuel' [] after
            more (by omega) (by omega) hwithin' hmore
          rw [hdropped, hbefore]
          exact ⟨_, later, rfl, by simp⟩

/-- A text an added token occurs in has ids. -/
theorem encodeFrom_ne_nil {token : AddedToken} (hmem : token ∈ v.added) :
    ∀ (fuel : Nat) (ordinary text : Bytes) (i : Nat) (ids : List TokenId),
      text.length ≤ fuel → OccursAt (encode token.content) text i →
      v.encodeFrom u fuel ordinary text = .ok ids → ids ≠ [] := by
  have hne := encode_ne_nil (v.added_content token hmem)
  have hpos := length_pos_iff.mpr hne
  intro fuel
  induction fuel with
  | zero =>
    intro ordinary text i ids hfuel hocc h
    have hle := hocc.length_le hne
    omega
  | succ fuel ih =>
    intro ordinary text i ids hfuel hocc h
    cases text with
    | nil =>
      have hle := hocc.length_le hne
      rw [length_nil] at hle
      omega
    | cons byte rest =>
      rw [length_cons] at hfuel
      rw [Vocabulary.encodeFrom, matchToken_eq] at h
      cases hfirst : firstMatch v.added (byte :: rest) with
      | some other =>
        rw [hfirst] at h
        dsimp only at h
        split at h
        · cases h
        · obtain ⟨more, -, rfl⟩ := map_ok.mp h
          simp
      | none =>
        rw [hfirst] at h
        cases i with
        | zero =>
          unfold firstMatch at hfirst
          have hno := List.find?_eq_none.mp hfirst token hmem
          exact absurd ( isPrefixOf_iff_prefix.mpr hocc) hno
        | succ i =>
          exact ih (ordinary ++ [byte]) rest i ids (by omega) hocc h

theorem encodeText_eq (text : Bytes) :
    v.encodeText u text true = v.encodeFrom u text.length [] text := by
  cases text with
  | nil => rfl
  | cons byte rest => rfl

-- ============ the exact prefix

/-- What `encode_rendered_chat` does with a checkpoint no added token lies
across: it throws what encoding the text throws; else the ids of the text
in front are the first of the ids of the text, and it returns them with
their number as the frontier, for all the frontiers a `uint32` holds. -/
def ExactPrefix (v : Vocabulary) (u : UnicodeTables) (text : Bytes)
    (c : RewriteCheckpointByteSpec) : Prop :=
  ¬ Straddles v text c.offset →
    (∀ e, v.encodeText u text true = .error e →
      encodeRenderedChat v u ⟨text, some c⟩ = .error e)
    ∧ ∀ ids, v.encodeText u text true = .ok ids →
      ∃ frontier, 0 < frontier ∧ frontier ≤ ids.length
        ∧ v.encodeText u (text.take c.offset) true = .ok (ids.take frontier)
        ∧ (frontier < 2 ^ 32 →
          encodeRenderedChat v u ⟨text, some c⟩
            = .ok ⟨ids, some ⟨checkpointKind c.kind, frontier⟩⟩)

/-- The tags are added tokens. -/
structure AddsTags (v : Vocabulary) : Prop where
  messageStart : ∃ token ∈ v.added, encode token.content = messageStart
  thinkOpen : ∃ token ∈ v.added, encode token.content = thinkOpen

theorem CutAt.exactPrefix (hcut : CutAt text c.offset) (htags : AddsTags v) :
    ExactPrefix v u text c := by
  intro hstraddles
  obtain ⟨kind, offset⟩ := c
  obtain ⟨front, back, rest, rfl, hoffset, hrest⟩ := hcut
  dsimp only at hoffset hstraddles ⊢
  subst hoffset
  generalize hbefore : front ++ (messageStart ++ back) = before at hstraddles ⊢
  have hback : rest = [] ∨ ∃ token, firstMatch v.added rest = some token := by
    rcases hrest with hnil | hthink
    · exact .inl hnil
    · obtain ⟨token, hmem, hcontent⟩ := htags.thinkOpen
      refine .inr (Option.isSome_iff_exists.mp ?_)
      unfold firstMatch
      rw [List.find?_isSome]
      refine ⟨token, hmem, ?_⟩
      rw [ isPrefixOf_iff_prefix, hcontent]
      exact hthink
  constructor
  · intro e he
    unfold encodeRenderedChat
    rw [he]
    rfl
  · intro ids hids
    rw [encodeText_eq] at hids
    obtain ⟨ahead, after, hahead, rfl⟩ := encodeFrom_cut hback _
      before.length [] before ids (by rw [length_append])
      (le_refl _) (within_of_not_straddles hstraddles) hids
    have hne : ahead ≠ [] := by
      obtain ⟨token, hmem, hcontent⟩ := htags.messageStart
      refine encodeFrom_ne_nil hmem before.length [] before front.length
        ahead (le_refl _) ?_ hahead
      unfold OccursAt
      rw [← hbefore, drop_left' rfl, hcontent]
      exact prefix_append _ _
    refine ⟨ahead.length, length_pos_iff.mpr hne, ?_, ?_, ?_⟩
    · rw [length_append]
      omega
    · rw [take_left' rfl, take_left' rfl, encodeText_eq]
      exact hahead
    · intro hfits
      have hnarrow : ¬ 2 ^ 32 - 1 < ahead.length := by omega
      have hlong : ¬ (before ++ rest).length < before.length := by
        rw [length_append]
        omega
      have hexact : (ahead.isEmpty || !ahead.isPrefixOf (ahead ++ after))
          = false := by
        rw [ isPrefixOf_iff_prefix.mpr (prefix_append _ _),
          isEmpty_eq_false_iff.mpr hne]
        rfl
      unfold encodeRenderedChat
      rw [encodeText_eq, hids]
      dsimp only [bind, Except.bind]
      rw [if_neg hlong, take_left' rfl, encodeText_eq, hahead]
      dsimp only
      rw [hexact, if_neg Bool.false_ne_true, if_neg hnarrow]
      rfl

/-- A rewrite checkpoint is an exact token prefix, of a text without media
and of an expanded one. The expansion never throws because of it, and what
stands in front of it then is the expansion of what stood in front of it
before, with the first of the items. -/
theorem rewrite_checkpoint_exact_prefix {rendered : RenderedChat}
    {c : RewriteCheckpointByteSpec}
    (hrender : render lib semantics M options = .ok rendered)
    (hc : rendered.rewriteCheckpoint = some c) (htags : AddsTags v) :
    ExactPrefix v u rendered.text c
      ∧ ∀ items : List VisionItem,
        (∀ text, expandPlaceholders ⟨rendered.text, none⟩ items
            = .ok ⟨text, none⟩ →
          ∃ o, expandPlaceholders rendered items = .ok ⟨text, some ⟨c.kind, o⟩⟩)
        ∧ ∀ expanded, expandPlaceholders rendered items = .ok expanded →
          ∃ o items₁ items₂, items = items₁ ++ items₂
            ∧ expanded.rewriteCheckpoint = some ⟨c.kind, o⟩
            ∧ expandPlaceholders ⟨rendered.text.take c.offset, none⟩ items₁
              = .ok ⟨expanded.text.take o, none⟩
            ∧ ExactPrefix v u expanded.text ⟨c.kind, o⟩ := by
  have hcut := render_cut hrender hc
  obtain ⟨text, checkpoint⟩ := rendered
  dsimp only at hc hcut ⊢
  subst hc
  refine ⟨hcut.exactPrefix htags, fun items => ⟨fun out hout => ?_,
    fun expanded hexpanded => ?_⟩⟩
  · obtain ⟨out', hrest, heq⟩ := expandRest_of_expandFrom items [] text none
      ⟨out, none⟩ hout
    obtain rfl : out = out' := heq
    obtain ⟨items₁, items₂, o, -, hloop, -⟩ := hcut.expand c.kind hrest
    exact ⟨o, hloop⟩
  · obtain ⟨out, hrest, htext⟩ := expandRest_of_expandFrom items [] text
      (some c) expanded hexpanded
    obtain ⟨items₁, items₂, o, hitems, hloop, hfront, hcut'⟩ :=
      hcut.expand c.kind hrest
    obtain rfl := Except.ok.inj (hexpanded.symm.trans hloop)
    exact ⟨o, items₁, items₂, hitems, rfl,
      expandFrom_of_expandRest items₁ [] _ _ hfront,
      hcut'.exactPrefix htags⟩

/-- The tags as added tokens, the letters of a question and an answer's
header, and the newline in the byte-level alphabet. -/
def letterVocabulary : Vocabulary where
  vocab := ["u", "s", "e", "r", "q", "a", "i", "t", "n", "Ċ"].zipIdx.map
    fun entry => (entry.1.toList, entry.2)
  added :=
    [⟨21, "<|im_start|>".toList, true⟩, ⟨22, "<|im_end|>".toList, true⟩,
      ⟨23, "<think>".toList, true⟩, ⟨24, "<|vision_start|>".toList, true⟩,
      ⟨25, "<|vision_end|>".toList, true⟩,
      ⟨248056, "<|image_pad|>".toList, true⟩]
  merges := []
  hasBpeMerges := true
  merges_loaded := rfl
  vocab_ids := by decide
  added_ids := by decide
  added_apart := by decide
  added_content := by decide

theorem letterVocabulary_addsTags : AddsTags letterVocabulary where
  messageStart := ⟨⟨21, "<|im_start|>".toList, true⟩, by
    simp [letterVocabulary], by decide⟩
  thinkOpen := ⟨⟨23, "<think>".toList, true⟩, by
    simp [letterVocabulary], by decide⟩

/-- A question about a picture, rendered. -/
def pictureRendered : RenderedChat where
  text := ascii ("<|im_start|>user\n<|vision_start|><|image_pad|>" ++
    "<|vision_end|>q<|im_end|>\n<|im_start|>assistant\n<think>\n")
  rewriteCheckpoint := some ⟨.turnClosure, 94⟩

/-- The same with the pads of the picture. -/
def pictureExpanded : RenderedChat where
  text := ascii ("<|im_start|>user\n<|vision_start|><|image_pad|>" ++
    "<|image_pad|><|image_pad|><|image_pad|>" ++
    "<|vision_end|>q<|im_end|>\n<|im_start|>assistant\n<think>\n")
  rewriteCheckpoint := some ⟨.turnClosure, 133⟩

/-- The question. -/
def pictureQuestion : List ChatMessage :=
  [⟨.user, [.image, .text (ascii "q")], [], [], []⟩]

/-- A JSON library a conversation without tools does not ask. -/
def noJson : JsonLibrary := ⟨fun _ => .ok (.scalar []), id⟩

/-- Its tokens. -/
def pictureIds : List TokenId :=
  [21, 0, 1, 2, 3, 9, 24, 248056, 248056, 248056, 248056, 25, 4, 22, 9,
    21, 5, 1, 1, 6, 1, 7, 5, 8, 7, 9, 23, 9]

theorem render_picture :
    render noJson .thinkingToggle pictureQuestion {} = .ok pictureRendered := by
  decide +kernel

theorem expand_picture :
    expandPlaceholders pictureRendered [smallPicture]
      = .ok pictureExpanded := by
  decide +kernel

theorem encode_picture :
    letterVocabulary.encodeText Vocabulary.asciiTables
      pictureExpanded.text true = .ok pictureIds := by
  decide +kernel

theorem picture_not_straddles :
    ¬ Straddles letterVocabulary pictureExpanded.text 133 := by
  decide +kernel

/-- The checkpoint of that question moves behind its four pads, and the
tokens in front of it are the first of the prompt. -/
theorem rewrite_checkpoint_exact_prefix_picture :
    ∃ frontier, 0 < frontier
      ∧ letterVocabulary.encodeText Vocabulary.asciiTables
          (pictureExpanded.text.take 133) true
        = .ok (pictureIds.take frontier)
      ∧ encodeRenderedChat letterVocabulary Vocabulary.asciiTables
          pictureExpanded
        = .ok ⟨pictureIds, some ⟨.turnClosure, frontier⟩⟩ := by
  obtain ⟨o, -, -, -, hcheckpoint, -, hexact⟩ :=
    (( rewrite_checkpoint_exact_prefix render_picture rfl
      letterVocabulary_addsTags).2 [smallPicture]).2
        pictureExpanded expand_picture
  obtain rfl : 133 = o := congrArg RewriteCheckpointByteSpec.offset
    (Option.some.inj hcheckpoint)
  obtain ⟨frontier, hpos, hle, hfront, hencode⟩ :=
    (hexact picture_not_straddles).2 pictureIds encode_picture
  have hfits : frontier < 2 ^ 32 := by
    have hlength : pictureIds.length = 28 := rfl
    omega
  have heta : ∀ r : RenderedChat, r = ⟨r.text, r.rewriteCheckpoint⟩ :=
    fun _ => rfl
  dsimp only at hfront
  exact ⟨frontier, hpos, hfront,
    (congrArg (encodeRenderedChat _ _) (heta pictureExpanded)).trans
      (hencode hfits)⟩

/-- A question in a letter the vocabulary does not list, rendered. -/
def letterRendered : RenderedChat where
  text := ascii ("<|im_start|>user\nz<|im_end|>\n" ++
    "<|im_start|>assistant\n<think>\n")
  rewriteCheckpoint := some ⟨.turnClosure, 51⟩

/-- The loader does not ask for all the byte symbols: the tags are added
tokens and none lies across the checkpoint, and encoding still throws for
a letter that is no token. -/
theorem rewrite_checkpoint_unlisted_letter :
    render noJson .thinkingToggle
        [⟨.user, [.text (ascii "z")], [], [], []⟩] {} = .ok letterRendered
      ∧ expandPlaceholders letterRendered [] = .ok letterRendered
      ∧ (∀ tag ∈ [ascii "<|im_start|>", ascii "<|im_end|>",
          ascii "<think>"], ∃ token ∈ letterVocabulary.added,
            encode token.content = tag)
      ∧ ¬ Straddles letterVocabulary letterRendered.text 51
      ∧ encodeRenderedChat letterVocabulary Vocabulary.asciiTables
          letterRendered
        = .error (.invalidArgument
          "Tokenizer::encode produced token outside vocabulary: z") := by
  refine ⟨by decide +kernel, by decide +kernel, by decide +kernel,
    by decide +kernel, ?_⟩
  have hthrows : letterVocabulary.encodeText Vocabulary.asciiTables
      letterRendered.text true = .error (.invalidArgument
        "Tokenizer::encode produced token outside vocabulary: z") := by
    decide +kernel
  unfold encodeRenderedChat
  rw [hthrows]
  rfl

end Ginfer.Frontend.Multimodal
