/-
A rewrite checkpoint is below every rewrite.

Render a conversation and any continuation of it with the same options,
side by side. The last real user query of the longer one is no earlier
(`lastRealUserQuery_append`), so an assistant message that has lost its
reasoning in the shorter one has lost it in the longer one too; a tool
message sees the same neighbours unless it is the last. `Agree` is what the
two loops keep over the shorter conversation: while the checkpoint is not
set they have written the same, and once it is set they have written the
same up to it. `renderMessage_agree` is one message, `loop_agree` the
conversation, `checkpoint_stable` the rendered texts.
-/
import Ginfer.Frontend.ChatTemplate

namespace Ginfer.Frontend.ChatTemplate

open Ginfer.Lib Ginfer.Lib.Outcome List Prod

-- ============ the last user query

theorem lastRealUserQuery_ok {messages : List ChatMessage} {q : Nat}
    (h : lastRealUserQuery messages = .ok q) :
    ∃ m, messages.zipIdx.reverse.find? (fun m => isRealUserQuery m.1) =
      some (m, q) := by
  unfold lastRealUserQuery at h
  cases hfind : messages.zipIdx.reverse.find?
      (fun m => isRealUserQuery m.1) with
  | none => rw [hfind] at h; exact absurd h (by simp)
  | some found =>
    obtain ⟨m, i⟩ := found
    rw [hfind] at h
    obtain rfl : i = q := Except.ok.inj h
    exact ⟨m, rfl⟩

/-- A continuation moves the last query only forward. -/
theorem lastRealUserQuery_append {M N : List ChatMessage} {q q' : Nat}
    (h : lastRealUserQuery M = .ok q)
    (h' : lastRealUserQuery (M ++ N) = .ok q') : q ≤ q' := by
  obtain ⟨m, hm⟩ := lastRealUserQuery_ok h
  obtain ⟨m', hm'⟩ := lastRealUserQuery_ok h'
  have hq : q < M.length := by
    have hmem := mem_of_find?_eq_some hm
    rw [mem_reverse] at hmem
    have := snd_lt_of_mem_zipIdx hmem
    omega
  rw [zipIdx_append, reverse_append, find?_append] at hm'
  cases hlater : (N.zipIdx (0 + M.length)).reverse.find?
      (fun m => isRealUserQuery m.1) with
  | none =>
    rw [hlater, Option.none_or, hm] at hm'
    obtain ⟨-, rfl⟩ := mk.inj (Option.some.inj hm')
    exact le_refl _
  | some found =>
    rw [hlater, Option.some_or] at hm'
    cases hm'
    have hmem := mem_of_find?_eq_some hlater
    rw [mem_reverse] at hmem
    have := le_snd_of_mem_zipIdx hmem
    omega

-- ============ one message

variable {lib : JsonLibrary} {ctx : RenderContext}
  {M N : List ChatMessage} {q q' : Nat} {s s' t t' : RenderState}
  {message : ChatMessage} {i : Nat}

/-- A message that is rendered is rendered by its role, on the counts its
content leaves. -/
theorem renderMessage_ok (h : renderMessage lib ctx M q s (message, i) =
      .ok t) (hbegin : ¬ i < ctx.messageBegin) :
    ∃ content images videos,
      message.renderedContent ctx.addVisionId s.imageCount s.videoCount =
        (content, images, videos) ∧
      renderByRole lib ctx M q
        { s with imageCount := images, videoCount := videos } message i
        (trimAsciiWhitespace content) = .ok t := by
  unfold renderMessage at h
  rw [if_neg hbegin] at h
  dsimp only at h
  split at h
  · obtain ⟨-, -, h⟩ := bind_ok.mp h
    exact ⟨_, _, _, rfl, h⟩
  · exact ⟨_, _, _, rfl, h⟩

/-- An assistant message writes its header first. -/
theorem renderByRole_assistant {content : Bytes}
    (hrole : message.role = .assistant)
    (h : renderByRole lib ctx M q s message i content = .ok t) :
    ∃ body, renderAssistantBody lib ctx.effortTemplate
        (ctx.preserveThinking || q < i) message content = .ok body ∧
      t = { s with
        rendered := s.rendered ++ assistantHeader ++ body
        rewriteCheckpoint :=
          if q < i then
            turnClosure ctx.preserveThinking (s.rendered ++ assistantHeader)
              s.rewriteCheckpoint
          else s.rewriteCheckpoint } := by
  unfold renderByRole at h
  rw [hrole] at h
  obtain ⟨body, hbody, h⟩ := bind_ok.mp h
  exact ⟨body, hbody, (Except.ok.inj h).symm⟩

/-- Any other message writes a text that depends on its role, its content
and, for a tool message, its neighbours. -/
theorem renderByRole_plain (lib : JsonLibrary) (ctx : RenderContext)
    (M N : List ChatMessage) (q q' i : Nat) (content : Bytes)
    (hrole : message.role ≠ .assistant) :
    ∃ text, (∀ s, renderByRole lib ctx M q s message i content =
        .ok { s with rendered := s.rendered ++ text }) ∧
      (renderToolResponse (M ++ N) i content = renderToolResponse M i content →
        ∀ s, renderByRole lib ctx (M ++ N) q' s message i content =
          .ok { s with rendered := s.rendered ++ text }) := by
  unfold renderByRole
  cases hmessage : message.role with
  | assistant => exact absurd hmessage hrole
  | system =>
    refine ⟨ascii "<|im_start|>system\n" ++ content ++
      ascii "<|im_end|>\n", fun s => ?_, fun _ s => ?_⟩
    · simp only [append_assoc]
    · simp only [append_assoc]
  | developer =>
    refine ⟨ascii "<|im_start|>system\n" ++ content ++
      ascii "<|im_end|>\n", fun s => ?_, fun _ s => ?_⟩
    · simp only [append_assoc]
    · simp only [append_assoc]
  | user =>
    refine ⟨ascii "<|im_start|>user\n" ++ content ++
      ascii "<|im_end|>\n", fun s => ?_, fun _ s => ?_⟩
    · simp only [append_assoc]
    · simp only [append_assoc]
  | tool =>
    refine ⟨renderToolResponse M i content, fun s => rfl, fun hsame s => ?_⟩
    simp only [hsame]

/-- A message only appends, and leaves a checkpoint that is set; where
reasoning is preserved it sets none. -/
theorem renderByRole_extends {content : Bytes}
    (h : renderByRole lib ctx M q s message i content = .ok t) :
    s.rendered <+: t.rendered ∧
      (s.rewriteCheckpoint ≠ none ∨ ctx.preserveThinking = true →
        t.rewriteCheckpoint = s.rewriteCheckpoint) ∧
      t.imageCount = s.imageCount ∧ t.videoCount = s.videoCount := by
  by_cases hrole : message.role = .assistant
  · obtain ⟨body, -, rfl⟩ := renderByRole_assistant hrole h
    refine ⟨⟨assistantHeader ++ body, by simp⟩, fun hset => ?_, rfl, rfl⟩
    show (if q < i then _ else _) = _
    split
    · unfold turnClosure
      rw [if_neg]
      rcases hset with hset | hpreserve
      · cases hc : s.rewriteCheckpoint with
        | none => exact absurd hc hset
        | some c => simp
      · rw [hpreserve]
        simp
    · rfl
  · obtain ⟨text, htext, -⟩ := renderByRole_plain lib ctx M [] q q i content hrole
    rw [htext s] at h
    cases h
    exact ⟨prefix_append _ _, fun _ => rfl, rfl, rfl⟩

/-- So does the loop's body. -/
theorem renderMessage_extends
    (h : renderMessage lib ctx M q s (message, i) = .ok t) :
    s.rendered <+: t.rendered ∧
      (s.rewriteCheckpoint ≠ none ∨ ctx.preserveThinking = true →
        t.rewriteCheckpoint = s.rewriteCheckpoint) := by
  by_cases hbegin : i < ctx.messageBegin
  · unfold renderMessage at h
    rw [if_pos hbegin] at h
    cases h
    exact ⟨prefix_refl _, fun _ => rfl⟩
  · obtain ⟨content, images, videos, -, hrole⟩ := renderMessage_ok h hbegin
    obtain ⟨htext, hset, -⟩ := renderByRole_extends hrole
    exact ⟨htext, hset⟩

/-- The whole loop only appends, and sets no checkpoint where reasoning is
preserved. -/
theorem loop_extends (entries : List (ChatMessage × Nat)) :
    ∀ {s t : RenderState}, entries.foldlM (renderMessage lib ctx M q) s = .ok t →
      s.rendered <+: t.rendered ∧ (ctx.preserveThinking = true →
        t.rewriteCheckpoint = s.rewriteCheckpoint) := by
  induction entries with
  | nil =>
    intro s t h
    cases h
    exact ⟨prefix_refl _, fun _ => rfl⟩
  | cons entry rest ih =>
    intro s t h
    obtain ⟨message, i⟩ := entry
    rw [foldlM_cons] at h
    obtain ⟨next, hnext, h⟩ := bind_ok.mp h
    obtain ⟨htext, hset⟩ := renderMessage_extends hnext
    obtain ⟨hmore, hrest⟩ := ih h
    exact ⟨htext.trans hmore, fun hpreserve =>
      (hrest hpreserve).trans (hset (.inr hpreserve))⟩

-- ============ the continuation

/-- The continuation begins with an assistant message. -/
def StartsWithAssistant (N : List ChatMessage) : Prop :=
  ∃ a rest, N = a :: rest ∧ a.role = .assistant

/-- A tool message is written the same when the continuation does not go on
its group. -/
theorem renderToolResponse_append (content : Bytes) (hi : i < M.length)
    (hlast : i + 1 = M.length → StartsWithAssistant N) :
    renderToolResponse (M ++ N) i content =
      renderToolResponse M i content := by
  have hbefore : (M ++ N)[i - 1]? = M[i - 1]? :=
    getElem?_append_left (by omega)
  unfold renderToolResponse
  rw [hbefore]
  by_cases hend : i + 1 = M.length
  · obtain ⟨a, rest, rfl, ha⟩ := hlast hend
    have hafter : (M ++ a :: rest)[i + 1]? = some a := by
      rw [hend]
      simp
    rw [hafter]
    simp [hend, ha]
  · have hafter : (M ++ N)[i + 1]? = M[i + 1]? :=
      getElem?_append_left (by omega)
    have hin : i + 1 < M.length := by omega
    rw [hafter]
    have hne : ¬ i + 1 = (M ++ N).length := by
      rw [length_append]
      omega
    rw [decide_eq_false hne, decide_eq_false hend]

/-- What the loops over a conversation and over a continuation of it have
in common: everything, until the checkpoint is set, and what stands before
it from then on. -/
def Agree (s s' : RenderState) : Prop :=
  match s.rewriteCheckpoint with
  | none => s'.rendered = s.rendered ∧ s'.imageCount = s.imageCount ∧
    s'.videoCount = s.videoCount
  | some c => c.kind = .turnClosure ∧
    ∃ p, p.length = c.offset ∧ p <+: s.rendered ∧ p <+: s'.rendered

theorem agree_of_none (h : s.rewriteCheckpoint = none) :
    Agree s s' ↔ s'.rendered = s.rendered ∧ s'.imageCount = s.imageCount ∧
      s'.videoCount = s.videoCount := by
  unfold Agree
  rw [h]

variable {c : RewriteCheckpointByteSpec}

theorem agree_of_some (h : s.rewriteCheckpoint = some c) :
    Agree s s' ↔ c.kind = .turnClosure ∧
      ∃ p, p.length = c.offset ∧ p <+: s.rendered ∧ p <+: s'.rendered := by
  unfold Agree
  rw [h]

/-- Where the checkpoint is not set, one message is written the same in
both, or sets it. -/
theorem renderByRole_agree {content : Bytes}
    (hnone : s.rewriteCheckpoint = none) (hagree : Agree s s')
    (hq : q ≤ q') (hi : i < M.length)
    (hlast : i + 1 = M.length → t.rewriteCheckpoint = none →
      StartsWithAssistant N)
    (h : renderByRole lib ctx M q s message i content = .ok t)
    (h' : renderByRole lib ctx (M ++ N) q' s' message i content = .ok t') :
    Agree t t' := by
  obtain ⟨htext, himages, hvideos⟩ := (agree_of_none hnone).mp hagree
  by_cases hrole : message.role = .assistant
  · obtain ⟨body, hbody, rfl⟩ := renderByRole_assistant hrole h
    obtain ⟨body', hbody', rfl⟩ := renderByRole_assistant hrole h'
    by_cases hafter : q < i ∧ ctx.preserveThinking = false
    · -- the checkpoint is set here, after the header both write
      have hset : (if q < i then
          turnClosure ctx.preserveThinking
            (s.rendered ++ assistantHeader) s.rewriteCheckpoint
          else s.rewriteCheckpoint) =
          some ⟨.turnClosure, (s.rendered ++ assistantHeader).length⟩ := by
        rw [if_pos hafter.1, hnone]
        unfold turnClosure
        rw [hafter.2]
        rfl
      refine (agree_of_some hset).mpr ⟨rfl, _, rfl, ?_, ?_⟩
      · exact prefix_append _ _
      · rw [← htext]
        exact prefix_append _ _
    · -- both keep the reasoning, or neither does
      have hkeep : (ctx.preserveThinking || decide (q < i)) =
          (ctx.preserveThinking || decide (q' < i)) := by
        cases hpreserve : ctx.preserveThinking with
        | true => rfl
        | false =>
          have hle : ¬ q < i := fun hlt => hafter ⟨hlt, hpreserve⟩
          rw [decide_eq_false hle, decide_eq_false (show ¬ q' < i by omega)]
      obtain rfl : body = body' := by
        rw [hkeep] at hbody
        exact Except.ok.inj (hbody.symm.trans hbody')
      have hunset : (if q < i then
          turnClosure ctx.preserveThinking
            (s.rendered ++ assistantHeader) s.rewriteCheckpoint
          else s.rewriteCheckpoint) = none := by
        rw [hnone]
        split
        · next hlt =>
          cases hpreserve : ctx.preserveThinking with
          | true => rfl
          | false => exact absurd ⟨hlt, hpreserve⟩ hafter
        · rfl
      exact (agree_of_none hunset).mpr ⟨by rw [htext], himages, hvideos⟩
  · obtain ⟨text, hplain, hplain'⟩ := renderByRole_plain lib ctx M N q
      q' i content hrole
    rw [hplain s] at h
    cases h
    have hsame := renderToolResponse_append content hi
      fun hend => hlast hend hnone
    rw [hplain' hsame s'] at h'
    cases h'
    refine (agree_of_none ?_).mpr ⟨?_, himages, hvideos⟩
    · exact hnone
    · show s'.rendered ++ text = s.rendered ++ text
      rw [htext]

/-- One message keeps the agreement. -/
theorem renderMessage_agree (hagree : Agree s s') (hq : q ≤ q')
    (hi : i < M.length)
    (hlast : i + 1 = M.length → t.rewriteCheckpoint = none →
      StartsWithAssistant N)
    (h : renderMessage lib ctx M q s (message, i) = .ok t)
    (h' : renderMessage lib ctx (M ++ N) q' s' (message, i) = .ok t') :
    Agree t t' := by
  cases hset : s.rewriteCheckpoint with
  | some c =>
    -- what is appended now stands behind the checkpoint
    obtain ⟨hext, hkeeps⟩ := renderMessage_extends h
    obtain ⟨hkind, p, hp, hin, hin'⟩ := (agree_of_some hset).mp hagree
    have hset' : t.rewriteCheckpoint = some c := by
      rw [hkeeps (.inl (by rw [hset]; exact Option.some_ne_none c)), hset]
    exact (agree_of_some hset').mpr ⟨hkind, p, hp, hin.trans hext,
      hin'.trans (renderMessage_extends h').1⟩
  | none =>
    by_cases hbegin : i < ctx.messageBegin
    · unfold renderMessage at h h'
      rw [if_pos hbegin] at h h'
      cases h
      cases h'
      exact hagree
    · obtain ⟨content, images, videos, hc, hrole⟩ :=
        renderMessage_ok h hbegin
      obtain ⟨content', images', videos', hc', hrole'⟩ :=
        renderMessage_ok h' hbegin
      obtain ⟨htext, himages, hvideos⟩ := (agree_of_none hset).mp hagree
      rw [himages, hvideos, hc] at hc'
      obtain ⟨rfl, hcounts⟩ := mk.inj hc'
      obtain ⟨rfl, rfl⟩ := mk.inj hcounts
      refine renderByRole_agree ?_ ?_ hq hi hlast hrole hrole'
      · exact hset
      · refine (agree_of_none ?_).mpr ⟨htext, rfl, rfl⟩
        exact hset

/-- The loop over the conversation keeps it, from any message on. -/
theorem loop_agree (hq : q ≤ q') (rest : List ChatMessage) :
    ∀ (seen : List ChatMessage) {s s' t t' : RenderState},
      M = seen ++ rest → Agree s s' →
      (rest.zipIdx seen.length).foldlM (renderMessage lib ctx M q) s = .ok t →
      (rest.zipIdx seen.length).foldlM
        (renderMessage lib ctx (M ++ N) q') s' = .ok t' →
      (t.rewriteCheckpoint = none → StartsWithAssistant N) →
      Agree t t' := by
  induction rest with
  | nil =>
    intro seen s s' t t' _ hagree h h' _
    cases h
    cases h'
    exact hagree
  | cons message rest ih =>
    intro seen s s' t t' hM hagree h h' hlast
    rw [zipIdx_cons, foldlM_cons] at h h'
    obtain ⟨next, hnext, h⟩ := bind_ok.mp h
    obtain ⟨next', hnext', h'⟩ := bind_ok.mp h'
    have hi : seen.length < M.length := by
      rw [hM, length_append, length_cons]
      omega
    have hnextAgree : Agree next next' := by
      refine renderMessage_agree hagree hq hi ?_ hnext hnext'
      intro hend hnone
      -- the last message: what it leaves is what the loop leaves
      have hrest : rest = [] := by
        rw [hM, length_append, length_cons] at hend
        exact length_eq_zero_iff.mp (by omega)
      subst hrest
      obtain rfl : next = t := Except.ok.inj h
      exact hlast hnone
    have hseen : (seen ++ [message]).length = seen.length + 1 := by simp
    refine ih (seen ++ [message]) ?_ hnextAgree ?_ ?_ hlast
    · rw [hM, append_assoc]
      rfl
    · rw [hseen]
      exact h
    · rw [hseen]
      exact h'

-- ============ the counts

/-- The images of a conversation. -/
def imageCount (messages : List ChatMessage) : Nat :=
  (messages.map fun m => m.parts.count .image).sum

/-- The videos of a conversation. -/
def videoCount (messages : List ChatMessage) : Nat :=
  (messages.map fun m => m.parts.count .video).sum

theorem renderedContent_counts (message : ChatMessage) (addVisionId : Bool)
    (images videos : Nat) :
    (message.renderedContent addVisionId images videos).2 =
      (images + message.parts.count .image,
        videos + message.parts.count .video) := by
  unfold ChatMessage.renderedContent
  generalize message.parts = parts
  generalize ([] : Bytes) = out
  induction parts generalizing out images videos with
  | nil => rfl
  | cons part rest ih =>
    cases part with
    | text text =>
      rw [foldl_cons, ChatMessage.renderPart, ih]
      simp
    | image =>
      rw [foldl_cons, ChatMessage.renderPart, ih]
      simp
      omega
    | video =>
      rw [foldl_cons, ChatMessage.renderPart, ih]
      simp
      omega

/-- The loop counts the media of what it renders; what it skips has
none. -/
theorem loop_counts (rest : List ChatMessage) :
    ∀ (k : Nat) {s t : RenderState},
      (∀ m i, (m, i) ∈ rest.zipIdx k → i < ctx.messageBegin →
        m.hasMedia = false) →
      (rest.zipIdx k).foldlM (renderMessage lib ctx M q) s = .ok t →
      t.imageCount = s.imageCount + imageCount rest ∧
        t.videoCount = s.videoCount + videoCount rest := by
  induction rest with
  | nil =>
    intro k s t _ h
    cases h
    exact ⟨rfl, rfl⟩
  | cons message rest ih =>
    intro k s t hskip h
    rw [zipIdx_cons, foldlM_cons] at h
    obtain ⟨next, hnext, h⟩ := bind_ok.mp h
    obtain ⟨himages, hvideos⟩ := ih (k + 1)
      (fun m i hm => hskip m i (by
        rw [zipIdx_cons]
        exact .tail _ hm)) h
    have hone : next.imageCount = s.imageCount + message.parts.count .image ∧
        next.videoCount = s.videoCount + message.parts.count .video := by
      by_cases hbegin : k < ctx.messageBegin
      · have hno := hskip message k (by
          rw [zipIdx_cons]
          exact .head _) hbegin
        unfold ChatMessage.hasMedia at hno
        rw [any_eq_false] at hno
        unfold renderMessage at hnext
        rw [if_pos hbegin] at hnext
        cases hnext
        have hi : message.parts.count .image = 0 :=
          count_eq_zero.mpr fun hmem => hno _ hmem rfl
        have hv : message.parts.count .video = 0 :=
          count_eq_zero.mpr fun hmem => hno _ hmem rfl
        exact ⟨by rw [hi]; rfl, by rw [hv]; rfl⟩
      · obtain ⟨content, images, videos, hc, hrole⟩ :=
          renderMessage_ok hnext hbegin
        have hcounts := renderedContent_counts message ctx.addVisionId
          s.imageCount s.videoCount
        rw [hc] at hcounts
        obtain ⟨-, -, hi, hv⟩ := renderByRole_extends hrole
        exact ⟨hi.trans (mk.inj hcounts).1, hv.trans (mk.inj hcounts).2⟩
    have hcons : imageCount (message :: rest) =
          message.parts.count .image + imageCount rest ∧
        videoCount (message :: rest) =
          message.parts.count .video + videoCount rest := by
      simp [imageCount, videoCount]
    constructor
    · rw [himages, hone.1, hcons.1]
      omega
    · rw [hvideos, hone.2, hcons.2]
      omega

/-- A leading instruction is skipped, and has no media. -/
theorem leadingInstruction_ok {first : ChatMessage} {messageBegin : Nat}
    {leading : Bytes}
    (h : leadingInstruction first = .ok (messageBegin, leading)) :
    messageBegin ≤ 1 ∧ (0 < messageBegin → first.hasMedia = false) := by
  unfold leadingInstruction at h
  split at h
  · obtain ⟨_, hvalid, h⟩ := bind_ok.mp h
    obtain ⟨rfl, -⟩ := mk.inj (Except.ok.inj h)
    refine ⟨le_refl _, fun _ => ?_⟩
    unfold validateInstructionMessage at hvalid
    split at hvalid
    · exact absurd hvalid (by simp)
    · next hno => exact Bool.eq_false_iff.mpr hno
  · obtain ⟨rfl, -⟩ := mk.inj (Except.ok.inj h)
    exact ⟨Nat.zero_le _, fun hlt => absurd hlt (Nat.lt_irrefl 0)⟩

-- ============ the rendered texts

variable {semantics : ChatTemplateSemantics} {options : ChatRenderOptions}
  {r r' : RenderedChat}

/-- `preserve_thinking`. -/
def preserves (semantics : ChatTemplateSemantics)
    (options : ChatRenderOptions) : Bool :=
  options.preserveThinking.getD (semantics = .reasoningEffort)

/-- What a render that returns has computed. The block before the loop
depends on the first message only. -/
theorem render_ok (h : render lib semantics M options = .ok r) :
    ∃ first, M.head? = some first ∧
      ∃ messageBegin leading rendered,
        leadingInstruction first = .ok (messageBegin, leading) ∧
        (∀ N, render lib semantics (M ++ N) options = (do
        let q ← lastRealUserQuery (M ++ N)
        let s ← (M ++ N).zipIdx.foldlM
          (renderMessage lib
            ⟨semantics = .reasoningEffort, preserves semantics options,
              options.addVisionId, messageBegin⟩ (M ++ N) q)
          ⟨rendered, none, 0, 0⟩
        .ok (finishRender options (preserves semantics options) s))) := by
  unfold render at h
  cases hfirst : M.head? with
  | none => rw [hfirst] at h; exact absurd h (by simp)
  | some first =>
    rw [hfirst] at h
    dsimp only at h
    obtain ⟨instructions, hinstructions, h⟩ := bind_ok.mp h
    obtain ⟨⟨messageBegin, leading⟩, hleading, h⟩ := bind_ok.mp h
    obtain ⟨rendered, hrendered, h⟩ := bind_ok.mp h
    refine ⟨first, rfl, messageBegin, leading, rendered, hleading, fun N => ?_⟩
    have hhead : (M ++ N).head? = some first := by
      rw [head?_append, hfirst]
      rfl
    unfold render
    rw [hhead]
    dsimp only
    rw [hinstructions]
    show (leadingInstruction first >>= _) = _
    rw [hleading]
    show (renderSystemBlock _ _ _ _ _ _ >>= _) = _
    rw [hrendered]
    rfl

/-- The reasoning the template renders for a message that follows the
conversation `M`. -/
def reasoningAfter (semantics : ChatTemplateSemantics)
    (options : ChatRenderOptions) (M : List ChatMessage)
    (message : ChatMessage) : Bytes :=
  (assistantParts (semantics = .reasoningEffort) message
    (trimAsciiWhitespace (message.renderedContent options.addVisionId
      (imageCount M) (videoCount M)).1)).reasoning

/-- The checkpoint stands at the generation prompt: what follows it is the
prologue of the answer. -/
def AtGenerationPrompt (options : ChatRenderOptions) (r : RenderedChat)
    (offset : Nat) : Prop :=
  options.addGenerationPrompt = true ∧
    offset + (generationPrologue options).length = r.text.length

/-- Two renderings of a conversation and a continuation, side by side: the
loop over the conversation, its twin, and the loop over the rest. -/
theorem render_append (h : render lib semantics M options = .ok r)
    (h' : render lib semantics (M ++ N) options = .ok r') :
    ∃ (messageBegin q' : Nat) (s s' t' : RenderState), messageBegin ≤ M.length ∧
      (preserves semantics options = true → s.rewriteCheckpoint = none) ∧
      ((s.rewriteCheckpoint = none → StartsWithAssistant N) → Agree s s') ∧
      s'.imageCount = imageCount M ∧ s'.videoCount = videoCount M ∧
      (N.zipIdx M.length).foldlM (renderMessage lib
        ⟨semantics = .reasoningEffort, preserves semantics options,
          options.addVisionId, messageBegin⟩ (M ++ N) q') s' = .ok t' ∧
      r = finishRender options (preserves semantics options) s ∧
      r' = finishRender options (preserves semantics options) t' := by
  obtain ⟨first, hfirst, messageBegin, leading, rendered, hleading, heq⟩ :=
    render_ok h
  have hM := heq []
  rw [append_nil] at hM
  rw [hM] at h
  rw [heq N] at h'
  obtain ⟨q, hq, hloop⟩ := bind_ok.mp h
  obtain ⟨s, hs, hdone⟩ := bind_ok.mp hloop
  obtain ⟨q', hq', hloop'⟩ := bind_ok.mp h'
  obtain ⟨t', ht', hdone'⟩ := bind_ok.mp hloop'
  rw [zipIdx_append, foldlM_append] at ht'
  obtain ⟨s', hs', ht'⟩ := bind_ok.mp ht'
  rw [zero_add] at ht'
  have hle := lastRealUserQuery_append hq hq'
  obtain ⟨hbegin, hmedia⟩ := leadingInstruction_ok hleading
  obtain ⟨rest, rfl⟩ : ∃ rest, M = first :: rest :=
    head?_eq_some_iff.mp hfirst
  have hcounts := loop_counts (first :: rest) 0 (fun m i hm hi => by
    -- only the first message is skipped
    rw [zipIdx_cons] at hm
    rcases mem_cons.mp hm with heq | hm
    · obtain ⟨rfl, rfl⟩ := mk.inj heq
      exact hmedia hi
    · have := le_snd_of_mem_zipIdx hm
      have hi' : i < messageBegin := hi
      omega) hs'
  refine ⟨messageBegin, q', s, s', t', ?_, fun hpreserve => ?_,
    fun hlast => ?_, ?_, ?_, ht', (Except.ok.inj hdone).symm, (Except.ok.inj hdone').symm⟩
  · rw [length_cons]
    omega
  · exact (loop_extends _ hs).2 hpreserve
  · refine loop_agree hle (first :: rest) [] rfl ?_ hs hs' hlast
    exact (agree_of_none rfl).mpr ⟨rfl, rfl, rfl⟩
  · rw [hcounts.1]
    exact zero_add _
  · rw [hcounts.2]
    exact zero_add _

/-- The end of a rendering only appends. -/
theorem finishRender_extends (options : ChatRenderOptions)
    (preserveThinking : Bool) (s : RenderState) :
    s.rendered <+: (finishRender options preserveThinking s).text := by
  unfold finishRender
  split
  · exact (prefix_append _ _).trans (prefix_append _ _)
  · exact prefix_refl _

/-- An assistant message that follows the conversation writes its header,
and its reasoning where all reasoning is preserved. -/
theorem continuation_header {messageBegin : Nat} {preserve : Bool}
    (hbegin : messageBegin ≤ M.length) (hN : StartsWithAssistant N)
    (h : (N.zipIdx M.length).foldlM
      (renderMessage lib ⟨semantics = .reasoningEffort, preserve,
        options.addVisionId, messageBegin⟩ (M ++ N) q) s = .ok t) :
    ∃ a, N.head? = some a ∧
      ∃ body, s.rendered ++ assistantHeader ++ body <+: t.rendered ∧
        (preserve = true → body = ascii "<think>\n" ++
        (assistantParts (semantics = .reasoningEffort) a
          (trimAsciiWhitespace (a.renderedContent options.addVisionId
            s.imageCount s.videoCount).1)).reasoning ++
        ascii "\n</think>\n\n") := by
  obtain ⟨a, rest, rfl, ha⟩ := hN
  rw [zipIdx_cons, foldlM_cons] at h
  obtain ⟨next, hnext, h⟩ := bind_ok.mp h
  obtain ⟨content, images, videos, hc, hrole⟩ :=
    renderMessage_ok hnext (Nat.not_lt.mpr hbegin)
  obtain ⟨body, hbody, rfl⟩ := renderByRole_assistant ha hrole
  obtain ⟨hmore, -⟩ := loop_extends _ h
  refine ⟨a, rfl, ?_⟩
  unfold renderAssistantBody at hbody
  obtain ⟨calls, -, hbody⟩ := bind_ok.mp hbody
  cases hbody
  rw [hc]
  refine ⟨if preserve || decide (q < M.length) then
      ascii "<think>\n" ++ (assistantParts (semantics = .reasoningEffort) a
        (trimAsciiWhitespace content)).reasoning ++ ascii "\n</think>\n\n"
    else [], List.IsPrefix.trans ?_ hmore, ?_⟩
  · refine ⟨(assistantParts (semantics = .reasoningEffort) a
      (trimAsciiWhitespace content)).content ++ calls ++ ascii "<|im_end|>\n", ?_⟩
    simp only [append_assoc]
  · intro hpreserve
    rw [hpreserve]
    rfl

/-- Where the checkpoint of a rendering comes from. -/
theorem finishRender_checkpoint {preserve : Bool}
    (h : (finishRender options preserve s).rewriteCheckpoint = some c) :
    s.rewriteCheckpoint = some c ∨
      (options.addGenerationPrompt = true ∧
        (finishRender options preserve s).text =
        s.rendered ++ assistantHeader ++ generationPrologue options ∧
        (preserve = false → s.rewriteCheckpoint = none ∧
        c = ⟨.turnClosure, (s.rendered ++ assistantHeader).length⟩) ∧
        (preserve = true → c.kind = .responseReplay)) := by
  unfold finishRender at h ⊢
  by_cases hadd : options.addGenerationPrompt = true
  · rw [if_pos hadd] at h ⊢
    dsimp only at h ⊢
    cases preserve with
    | true =>
      cases h
      exact .inr ⟨hadd, rfl, fun hfalse => absurd hfalse (by decide),
        fun _ => rfl⟩
    | false =>
      cases hs : s.rewriteCheckpoint with
      | some c' =>
        rw [hs] at h
        exact .inl h
      | none =>
        rw [hs] at h
        cases h
        exact .inr ⟨hadd, rfl, fun _ => ⟨rfl, rfl⟩,
          fun htrue => absurd htrue (by decide)⟩
  · rw [if_neg hadd] at h
    exact .inl h

/-- The rewrite checkpoint is below every rewrite: whatever continues the
conversation, a turn closure leaves the text before it as it is, and a
response replay the whole text. -/
theorem checkpoint_stable {c : RewriteCheckpointByteSpec}
    (h : render lib semantics M options = .ok r)
    (h' : render lib semantics (M ++ N) options = .ok r')
    (hc : r.rewriteCheckpoint = some c) :
    (c.kind = .turnClosure →
      (AtGenerationPrompt options r c.offset → StartsWithAssistant N) →
      ∃ p, p.length = c.offset ∧ p <+: r.text ∧ p <+: r'.text) ∧
    (c.kind = .responseReplay → StartsWithAssistant N →
      (options.enableThinking = false → ∀ a, N.head? = some a →
        reasoningAfter semantics options M a = []) →
      r.text <+: r'.text) := by
  obtain ⟨messageBegin, q', s, s', t', hbegin, hpreserves, hagree, himages,
    hvideos, ht', rfl, rfl⟩ := render_append h h'
  have hfinish := finishRender_extends options (preserves semantics options) t'
  obtain ⟨hloop, -⟩ := loop_extends _ ht'
  rcases finishRender_checkpoint hc with hs | ⟨hadd, htext, hno, hyes⟩
  · -- set in the loop
    obtain ⟨hkind, p, hp, hin, hin'⟩ := (agree_of_some hs).mp
      (hagree fun hnone => absurd (hs.symm.trans hnone) (by simp))
    refine ⟨fun _ _ => ?_, fun hreplay => ?_⟩
    · exact ⟨p, hp, hin.trans (finishRender_extends _ _ s),
        (hin'.trans hloop).trans hfinish⟩
    · rw [hkind] at hreplay
      exact absurd hreplay (by decide)
  · -- set at the generation prompt
    refine ⟨fun hkind hN => ?_, fun hkind hN hreasoning => ?_⟩
    · have hpreserve : preserves semantics options = false := by
        refine Bool.eq_false_iff.mpr fun htrue => ?_
        rw [hyes htrue] at hkind
        exact absurd hkind (by decide)
      obtain ⟨hs, rfl⟩ := hno hpreserve
      have hN' := hN ⟨hadd, by
        rw [htext]
        exact length_append.symm⟩
      obtain ⟨heq, -⟩ := (agree_of_none hs).mp (hagree fun _ => hN')
      obtain ⟨a, -, body, hheader, -⟩ := continuation_header hbegin hN' ht'
      refine ⟨_, rfl, ?_, ?_⟩
      · rw [htext]
        exact prefix_append _ _
      · rw [← heq]
        exact ((prefix_append _ _).trans hheader).trans hfinish
    · have hpreserve : preserves semantics options = true := by
        refine Bool.not_eq_false _ |>.mp fun hfalse => ?_
        rw [(hno hfalse).2] at hkind
        exact absurd (show RewriteCheckpointKind.turnClosure =
          .responseReplay from hkind) (by decide)
      have hs := hpreserves hpreserve
      obtain ⟨heq, -⟩ := (agree_of_none hs).mp (hagree fun _ => hN)
      obtain ⟨a, ha, body, hheader, hbody⟩ :=
        continuation_header hbegin hN ht'
      have hprologue : generationPrologue options <+: body := by
        rw [hbody hpreserve]
        unfold generationPrologue
        cases hthinking : options.enableThinking with
        | true =>
          rw [append_assoc]
          exact prefix_append _ _
        | false =>
          have hempty := hreasoning hthinking a ha
          unfold reasoningAfter at hempty
          rw [← himages, ← hvideos] at hempty
          rw [hempty]
          exact prefix_refl _
      rw [htext, ← heq]
      refine List.IsPrefix.trans ?_ (hheader.trans hfinish)
      exact prefix_append_right_inj _ |>.mpr hprologue

/-- A question, and what follows when the answer is given and the next
question is asked: with reasoning dropped and with reasoning preserved. -/
theorem checkpoint_stable_next_question :
    let lib : JsonLibrary := ⟨fun _ => .ok (.scalar []), id⟩
    let question : List ChatMessage :=
      [⟨.user, [.text (ascii "q")], [], [], []⟩]
    let next : List ChatMessage :=
      [⟨.assistant, [.text (ascii "a")], ascii "thought", [], []⟩,
        ⟨.user, [.text (ascii "r")], [], [], []⟩]
    (∃ r r' c, render lib .thinkingToggle question {} = .ok r ∧
      render lib .thinkingToggle (question ++ next) {} = .ok r' ∧
      r.rewriteCheckpoint = some c ∧ c.kind = .turnClosure ∧
      ∃ p, p.length = c.offset ∧ p <+: r.text ∧ p <+: r'.text) ∧
    ∃ r r' c,
      render lib .reasoningEffort question
        { reasoningEffort := some .medium } = .ok r ∧
      render lib .reasoningEffort (question ++ next)
        { reasoningEffort := some .medium } = .ok r' ∧
      r.rewriteCheckpoint = some c ∧ c.kind = .responseReplay ∧
      r.text <+: r'.text := by
  intro lib question next
  have hnext : StartsWithAssistant next := ⟨_, _, rfl, rfl⟩
  constructor
  · obtain ⟨r, c, hr, hc, hkind⟩ : ∃ r c,
        render lib .thinkingToggle question {} = .ok r ∧
        r.rewriteCheckpoint = some c ∧ c.kind = .turnClosure :=
      ⟨_, _, rfl, rfl, rfl⟩
    obtain ⟨r', hr'⟩ : ∃ r',
        render lib .thinkingToggle (question ++ next) {} = .ok r' := ⟨_, rfl⟩
    exact ⟨r, r', c, hr, hr', hc, hkind,
      (checkpoint_stable hr hr' hc).1 hkind fun _ => hnext⟩
  · obtain ⟨r, c, hr, hc, hkind⟩ : ∃ r c,
        render lib .reasoningEffort question
          { reasoningEffort := some .medium } = .ok r ∧
        r.rewriteCheckpoint = some c ∧ c.kind = .responseReplay :=
      ⟨_, _, rfl, rfl, rfl⟩
    obtain ⟨r', hr'⟩ : ∃ r',
        render lib .reasoningEffort (question ++ next)
          { reasoningEffort := some .medium } = .ok r' := ⟨_, rfl⟩
    refine ⟨r, r', c, hr, hr', hc, hkind,
      (checkpoint_stable hr hr' hc).2 hkind hnext ?_⟩
    exact fun h => absurd h (by decide)

end Ginfer.Frontend.ChatTemplate
