/-
What the sink shows is what the outcome says.

Whatever the deltas, the calls a `StreamSink` receives carry the outcome's
reasoning and text, none of them is empty, and the service counts the
content bytes it showed (`runStreamed_spec`). The order of the calls is
that of the deltas: a reasoning call follows a content call exactly when
content was shown before a reasoning delta (`interleaved_iff`), where
`shown` is what the tool filter lets through of the content so far.
-/
import Ginfer.Serve.GenerationService
import Ginfer.Serve.Proofs.ToolCallParser

namespace Ginfer.Serve

open Ginfer.Lib Ginfer.Frontend ToolCallStreamFilter List Except ServiceOutputSink Prod

-- ============ the calls

/-- The text of the reasoning calls. -/
def reasoningOf (calls : List SinkCall) : Bytes :=
  calls.flatMap fun
    | .onReasoning text => text
    | .onContent _ => []

/-- The text of the content calls. -/
def contentOf (calls : List SinkCall) : Bytes :=
  calls.flatMap fun
    | .onReasoning _ => []
    | .onContent text => text

theorem reasoningOf_append (a b : List SinkCall) :
    reasoningOf (a ++ b) = reasoningOf a ++ reasoningOf b :=
  flatMap_append

theorem contentOf_append (a b : List SinkCall) :
    contentOf (a ++ b) = contentOf a ++ contentOf b :=
  flatMap_append

/-- The text of a call. -/
def SinkCall.text : SinkCall → Bytes
  | .onReasoning text => text
  | .onContent text => text

/-- No call is empty. -/
def Substantial (calls : List SinkCall) : Prop := ∀ c ∈ calls, c.text ≠ []

theorem Substantial.append {a b : List SinkCall} (ha : Substantial a)
    (hb : Substantial b) : Substantial (a ++ b) := by
  intro c hc
  rcases mem_append.mp hc with hin | hin
  · exact ha c hin
  · exact hb c hin

variable {calls : List SinkCall}

theorem Substantial.contentOf_eq_nil (h : Substantial calls) :
    contentOf calls = [] ↔ ∀ text, SinkCall.onContent text ∉ calls := by
  unfold contentOf
  rw [flatMap_eq_nil_iff]
  constructor
  · intro hnil text hmem
    exact h _ hmem (hnil _ hmem)
  · intro hnone c hc
    cases c with
    | onReasoning text => rfl
    | onContent text => exact absurd hc (hnone text)

/-- A reasoning call follows a content call. -/
def Interleaved (calls : List SinkCall) : Prop :=
  ∃ before text between reasoning after, calls = before
    ++ .onContent text :: (between ++ .onReasoning reasoning :: after)

-- ============ the sink

/-- The content the sink has shown after some deltas: all of it, or what
the tool filter lets through. -/
def shown (filterToolCalls : Bool) (deltas : List OutputDelta) : Bytes :=
  if filterToolCalls then
    match initial.feedAll
        ((deltas.filter fun d => d.channel = .content).map
          OutputDelta.text) with
    | .ok (visible, _) => visible
    | .error _ => []
  else textOn .content deltas

/-- No reasoning is published once content has been shown. -/
def ReasoningFirst (filterToolCalls : Bool) (deltas : List OutputDelta) :
    Prop :=
  ∀ before d after, deltas = before ++ d :: after →
    d.channel = .reasoning → d.text ≠ [] → shown filterToolCalls before = []

/-- The sink after the deltas, with the calls it made. -/
structure Shown (filterToolCalls : Bool) (deltas : List OutputDelta)
    (calls : List SinkCall) (s : ServiceOutputSink) : Prop where
  mode : s.filterToolCalls = filterToolCalls
  counted : s.contentBytes = (contentOf calls).length
  substantial : Substantial calls
  reasoning : reasoningOf calls = textOn .reasoning deltas
  plain : filterToolCalls = false → contentOf calls = textOn .content deltas
  filtered : filterToolCalls = true →
    initial.feedAll ((deltas.filter fun d => d.channel = .content).map
        OutputDelta.text) = .ok (contentOf calls, s.toolFilter)
      ∧ Filtered (textOn .content deltas) (contentOf calls) s.toolFilter

variable {filterToolCalls : Bool} {deltas : List OutputDelta}
  {s : ServiceOutputSink}

theorem Shown.shown_eq (h : Shown filterToolCalls deltas calls s) :
    shown filterToolCalls deltas = contentOf calls := by
  unfold shown
  cases hmode : filterToolCalls with
  | false => exact (h.plain hmode).symm
  | true => rw [if_pos rfl, (h.filtered hmode).1]

theorem textOn_append (channel : OutputChannel) (a b : PublishedOutput) :
    textOn channel (a ++ b) = textOn channel a ++ textOn channel b :=
  flatMap_append

/-- Feeding a chunk after the others. -/
theorem feedAll_concat {f f' f'' : ToolCallStreamFilter}
    {chunks : List Bytes} {visible more chunk : Bytes}
    (h : f.feedAll chunks = .ok (visible, f'))
    (hfeed : f'.feed chunk = .ok (more, f'')) :
    f.feedAll (chunks ++ [chunk]) = .ok (visible ++ more, f'') := by
  induction chunks generalizing f visible with
  | nil =>
    obtain ⟨rfl, rfl⟩ := mk.inj (ok.inj h)
    unfold feedAll
    rw [nil_append]
    show (f.feed chunk >>= fun p => p.2.feedAll [] >>= fun q =>
      ok (p.1 ++ q.1, q.2)) = _
    rw [hfeed]
    show ok (more ++ [], f'') = _
    rw [append_nil]
    rfl
  | cons head rest ih =>
    unfold feedAll at h
    cases hhead : f.feed head with
    | error e =>
      rw [hhead] at h
      cases h
    | ok p =>
      obtain ⟨v, g⟩ := p
      rw [hhead] at h
      change (g.feedAll rest >>= fun q => ok (v ++ q.1, q.2)) = _ at h
      cases hrest : g.feedAll rest with
      | error e =>
        rw [hrest] at h
        cases h
      | ok p' =>
        obtain ⟨w, g'⟩ := p'
        rw [hrest] at h
        cases h
        rw [cons_append]
        unfold feedAll
        rw [hhead]
        show (g.feedAll (rest ++ [chunk]) >>= fun q =>
          ok (v ++ q.1, q.2)) = _
        rw [ih hrest]
        show ok (v ++ (w ++ more), f'') = _
        rw [append_assoc]

theorem initial_shown (filterToolCalls : Bool) :
    Shown filterToolCalls [] [] (.initial filterToolCalls) where
  mode := rfl
  counted := rfl
  substantial := nofun
  reasoning := rfl
  plain _ := rfl
  filtered _ := ⟨rfl, initial_filtered⟩

/-- Content is shown, or there is none to show. -/
theorem publishContent_spec (s : ServiceOutputSink) (text : Bytes) :
    ∃ calls, s.publishContent text
        = (calls, { s with contentBytes := s.contentBytes + text.length })
      ∧ Substantial calls ∧ contentOf calls = text
      ∧ reasoningOf calls = []
      ∧ ∀ reasoning, SinkCall.onReasoning reasoning ∉ calls := by
  unfold publishContent
  cases text with
  | nil => exact ⟨[], rfl, nofun, rfl, rfl, nofun⟩
  | cons b rest =>
    refine ⟨[.onContent (b :: rest)], rfl, ?_, ?_, rfl, ?_⟩
    · intro c hc
      obtain rfl := mem_singleton.mp hc
      exact cons_ne_nil b rest
    · exact append_nil _
    · intro reasoning hmem
      cases mem_singleton.mp hmem

/-- One delta. -/
theorem publish_shown
    (h : Shown filterToolCalls deltas calls s) (d : OutputDelta) :
    ∃ more s', s.publish d = .ok (more, s')
      ∧ Shown filterToolCalls (deltas ++ [d]) (calls ++ more) s'
      ∧ ∀ reasoning, SinkCall.onReasoning reasoning ∈ more →
          more = [.onReasoning reasoning] ∧ d.channel = .reasoning
            ∧ d.text = reasoning := by
  obtain ⟨channel, text⟩ := d
  have hsplit : ∀ c, textOn c (deltas ++ [⟨channel, text⟩])
      = textOn c deltas ++ if channel = c then text else [] := by
    intro c
    rw [textOn_append]
    congr 1
    exact append_nil _
  unfold publish
  by_cases hempty : text = []
  · subst hempty
    have hsame : ∀ c, textOn c (deltas ++ [⟨channel, []⟩])
        = textOn c deltas := by
      intro c
      rw [hsplit, ite_self, append_nil]
    refine ⟨[], s, rfl, ?_, nofun⟩
    rw [append_nil]
    refine ⟨h.mode, h.counted, h.substantial, ?_, ?_, ?_⟩
    · rw [hsame]
      exact h.reasoning
    · rw [hsame]
      exact h.plain
    · intro hmode
      obtain ⟨hfeed, hfiltered⟩ := h.filtered hmode
      refine ⟨?_, by rw [hsame]; exact hfiltered⟩
      rw [filter_append, map_append]
      cases channel with
      | reasoning => simpa using hfeed
      | content =>
        have hnothing : s.toolFilter.feed [] = .ok ([], s.toolFilter) := by
          unfold feed
          rw [hfiltered.going]
          rfl
        have hconcat := feedAll_concat hfeed hnothing
        rw [append_nil] at hconcat
        exact hconcat
  · rw [if_neg (by simpa using hempty)]
    cases channel with
    | reasoning =>
      refine ⟨[.onReasoning text], s, rfl, ?_, ?_⟩
      · have hcontent : contentOf (calls ++ [.onReasoning text])
            = contentOf calls := by
          rw [contentOf_append]
          exact append_nil _
        have hsame : textOn .content (deltas ++ [⟨.reasoning, text⟩])
            = textOn .content deltas := by
          rw [hsplit]
          exact append_nil _
        refine ⟨h.mode, ?_, h.substantial.append ?_, ?_, ?_, ?_⟩
        · rw [hcontent]
          exact h.counted
        · intro c hc
          obtain rfl := mem_singleton.mp hc
          exact hempty
        · rw [reasoningOf_append, hsplit, h.reasoning]
          congr 1
          exact append_nil _
        · rw [hcontent, hsame]
          exact h.plain
        · intro hmode
          obtain ⟨hfeed, hfiltered⟩ := h.filtered hmode
          rw [hcontent, hsame]
          refine ⟨?_, hfiltered⟩
          rw [filter_append, map_append]
          simpa using hfeed
      · intro reasoning hmem
        have heq := mem_singleton.mp hmem
        cases heq
        exact ⟨rfl, rfl, rfl⟩
    | content =>
      have hreasoning : textOn .reasoning (deltas ++ [⟨.content, text⟩])
          = textOn .reasoning deltas := by
        rw [hsplit]
        exact append_nil _
      have hcontent : textOn .content (deltas ++ [⟨.content, text⟩])
          = textOn .content deltas ++ text := hsplit .content
      dsimp only
      cases hmode : filterToolCalls with
      | false =>
        rw [if_neg (by rw [h.mode, hmode]; exact Bool.false_ne_true)]
        obtain ⟨more, heq, hsub, htext, hnone, hno⟩ :=
          publishContent_spec s text
        refine ⟨more, _, congrArg ok heq, ⟨?_, ?_, ?_, ?_, ?_, ?_⟩,
          fun reasoning hmem => absurd hmem (hno reasoning)⟩
        · exact h.mode.trans hmode
        · rw [contentOf_append, htext, length_append, ← h.counted]
        · exact h.substantial.append hsub
        · rw [reasoningOf_append, hnone, append_nil, hreasoning]
          exact h.reasoning
        · intro _
          rw [contentOf_append, htext, hcontent, h.plain hmode]
        · exact nofun
      | true =>
        obtain ⟨hfeed, hfiltered⟩ := h.filtered hmode
        obtain ⟨visible, f', hvisible, hf'⟩ := feed_filtered hfiltered text
        rw [if_pos (h.mode.trans hmode), hvisible]
        obtain ⟨more, heq, hsub, htext, hnone, hno⟩ :=
          publishContent_spec { s with toolFilter := f' } visible
        refine ⟨more, _, congrArg ok heq, ⟨?_, ?_, ?_, ?_, ?_, ?_⟩,
          fun reasoning hmem => absurd hmem (hno reasoning)⟩
        · exact h.mode.trans hmode
        · rw [contentOf_append, htext, length_append, ← h.counted]
        · exact h.substantial.append hsub
        · rw [reasoningOf_append, hnone, append_nil, hreasoning]
          exact h.reasoning
        · exact nofun
        · intro _
          rw [contentOf_append, htext, hcontent]
          refine ⟨?_, hf'⟩
          rw [filter_append, map_append]
          exact feedAll_concat hfeed hvisible

/-- All of them. -/
theorem publishAll_shown :
    ∀ (rest : List OutputDelta) {deltas : List OutputDelta}
      {calls : List SinkCall} {s : ServiceOutputSink},
      Shown filterToolCalls deltas calls s →
      ∃ more s', s.publishAll rest = .ok (more, s')
        ∧ Shown filterToolCalls (deltas ++ rest) (calls ++ more) s' := by
  intro rest
  induction rest with
  | nil =>
    intro deltas calls s h
    exact ⟨[], s, rfl, by simpa using h⟩
  | cons d rest ih =>
    intro deltas calls s h
    obtain ⟨cs, s₁, hpublish, hs₁, -⟩ := publish_shown h d
    obtain ⟨more, s', hrest, hs'⟩ := ih hs₁
    refine ⟨cs ++ more, s', ?_, ?_⟩
    · unfold publishAll
      rw [hpublish]
      show (s₁.publishAll rest >>= fun q => ok (cs ++ q.1, q.2)) = _
      rw [hrest]
      rfl
    · rw [append_assoc, append_assoc] at hs'
      exact hs'

-- ============ the order

/-- A reasoning call comes from a delta that was published once the calls
before it had been made. -/
theorem publishAll_reasoning :
    ∀ (rest : List OutputDelta) {deltas : List OutputDelta}
      {calls more : List SinkCall} {s s' : ServiceOutputSink},
      Shown filterToolCalls deltas calls s →
      s.publishAll rest = .ok (more, s') →
      ∀ {before after : List SinkCall} {reasoning : Bytes},
        more = before ++ .onReasoning reasoning :: after →
        ∃ front d back, rest = front ++ d :: back ∧ d.channel = .reasoning
        ∧ d.text = reasoning ∧ shown filterToolCalls (deltas ++ front)
          = contentOf (calls ++ before) := by
  intro rest
  induction rest with
  | nil =>
    intro deltas calls more s s' h hall before after reasoning hmore
    obtain ⟨rfl, -⟩ := mk.inj (ok.inj hall)
    simp at hmore
  | cons d rest ih =>
    intro deltas calls more s s' h hall before after reasoning hmore
    obtain ⟨cs, s₁, hpublish, hs₁, hreasons⟩ := publish_shown h d
    obtain ⟨tail, s₂, hrest, -⟩ := publishAll_shown rest hs₁
    unfold publishAll at hall
    rw [hpublish] at hall
    change (s₁.publishAll rest >>= fun q =>
      ok (cs ++ q.1, q.2)) = _ at hall
    rw [hrest] at hall
    obtain ⟨rfl, -⟩ := mk.inj (ok.inj hall)
    rcases append_eq_append_iff.mp hmore with
      ⟨mid, hbefore, htail⟩ | ⟨mid, hcs, htail⟩
    · -- the call belongs to a later delta
      obtain ⟨front, d', back, hsplit, hchannel, htext, hshown⟩ :=
        ih hs₁ hrest htail
      refine ⟨d :: front, d', back, ?_, hchannel, htext, ?_⟩
      · rw [hsplit, cons_append]
      · rw [hbefore, ← append_assoc, ← hshown, append_assoc]
        rfl
    · cases mid with
      | nil =>
        rw [append_nil] at hcs
        rw [nil_append] at htail
        obtain ⟨front, d', back, hsplit, hchannel, htext, hshown⟩ :=
          ih hs₁ hrest
            (show tail = [] ++ .onReasoning reasoning :: after from
              htail.symm)
        refine ⟨d :: front, d', back, ?_, hchannel, htext, ?_⟩
        · rw [hsplit, cons_append]
        · rw [← hcs, append_nil] at *
          rw [← hshown, append_assoc]
          rfl
      | cons c mid =>
        obtain ⟨rfl, -⟩ := List.cons.inj htail
        have hmem : SinkCall.onReasoning reasoning ∈ cs := by
          rw [hcs]
          exact mem_append_right _ mem_cons_self
        obtain ⟨hcs', hchannel, htext⟩ := hreasons reasoning hmem
        have hnil : before = [] := by
          rw [hcs'] at hcs
          cases before with
          | nil => rfl
          | cons c' rest' =>
            have hlen := congrArg List.length hcs
            simp at hlen
        subst hnil
        refine ⟨[], d, rest, rfl, hchannel, htext, ?_⟩
        rw [append_nil, append_nil]
        exact h.shown_eq

theorem publishAll_append {s' s'' : ServiceOutputSink}
    {a b : List OutputDelta} {more : List SinkCall}
    (ha : s.publishAll a = .ok (calls, s'))
    (hb : s'.publishAll b = .ok (more, s'')) :
    s.publishAll (a ++ b) = .ok (calls ++ more, s'') := by
  induction a generalizing s calls with
  | nil =>
    cases ha
    exact hb
  | cons d rest ih =>
    unfold publishAll at ha
    cases hd : s.publish d with
    | error e =>
      rw [hd] at ha
      cases ha
    | ok p =>
      obtain ⟨cs, s₁⟩ := p
      rw [hd] at ha
      change (s₁.publishAll rest >>= fun q =>
        ok (cs ++ q.1, q.2)) = _ at ha
      cases hrest : s₁.publishAll rest with
      | error e =>
        rw [hrest] at ha
        cases ha
      | ok p' =>
        obtain ⟨cs', s₂⟩ := p'
        rw [hrest] at ha
        cases ha
        rw [cons_append]
        unfold publishAll
        rw [hd]
        show (s₁.publishAll (rest ++ b) >>= fun q =>
          ok (cs ++ q.1, q.2)) = _
        rw [ih hrest]
        show ok (cs ++ (cs' ++ more), s'') = _
        rw [append_assoc]

/-- The calls are in order exactly when the deltas are. -/
theorem interleaved_iff {tail : List SinkCall}
    (hall : (initial filterToolCalls).publishAll deltas = .ok (calls, s))
    (htail : ∀ reasoning, SinkCall.onReasoning reasoning ∉ tail) :
    Interleaved (calls ++ tail) ↔ ¬ ReasoningFirst filterToolCalls deltas := by
  have hinitial := initial_shown filterToolCalls
  obtain ⟨calls', s', hall', hshown⟩ := publishAll_shown deltas hinitial
  obtain ⟨rfl, rfl⟩ := mk.inj (ok.inj (hall.symm.trans hall'))
  constructor
  · rintro ⟨before, text, between, reasoning, after, heq⟩ hfirst
    have hin : ∃ rest, calls = (before ++ .onContent text :: between)
        ++ .onReasoning reasoning :: rest := by
      have heq' : calls ++ tail = (before ++ .onContent text :: between)
          ++ .onReasoning reasoning :: after := by
        rw [heq, append_assoc]
        rfl
      rcases append_eq_append_iff.mp heq' with
        ⟨mid, -, hmid⟩ | ⟨mid, hcalls, hmid⟩
      · refine absurd ?_ (htail reasoning)
        rw [hmid]
        exact mem_append_right _ mem_cons_self
      · cases mid with
        | nil =>
          refine absurd ?_ (htail reasoning)
          rw [nil_append] at hmid
          rw [← hmid]
          exact mem_cons_self
        | cons c mid =>
          obtain ⟨rfl, -⟩ := List.cons.inj hmid
          exact ⟨mid, hcalls⟩
    obtain ⟨rest, hcalls⟩ := hin
    obtain ⟨front, d, back, hsplit, hchannel, htext, hfront⟩ :=
      publishAll_reasoning deltas hinitial hall hcalls
    have hsub : Substantial calls := hshown.substantial
    have hne : d.text ≠ [] := by
      rw [htext]
      refine hsub (.onReasoning reasoning) ?_
      rw [hcalls]
      exact mem_append_right _ mem_cons_self
    have hnone := hfirst front d back hsplit hchannel hne
    rw [nil_append, nil_append, hnone] at hfront
    have hsub' : Substantial (before ++ .onContent text :: between) := by
      intro c hc
      refine hsub c ?_
      rw [hcalls]
      exact mem_append_left _ hc
    exact (hsub'.contentOf_eq_nil.mp hfront.symm) text
      (mem_append_right _ mem_cons_self)
  · intro hnot
    unfold ReasoningFirst at hnot
    push Not at hnot
    obtain ⟨before, d, after, hsplit, hchannel, hne, hvisible⟩ := hnot
    obtain ⟨cs, s₁, hcs, hs₁⟩ := publishAll_shown before hinitial
    obtain ⟨cs', s₂, hcs', hs₂, -⟩ := publish_shown hs₁ d
    obtain ⟨cs'', s₃, hcs'', -⟩ := publishAll_shown after hs₂
    have hd : cs' = [.onReasoning d.text] := by
      unfold publish at hcs'
      rw [if_neg (by simpa using hne), hchannel] at hcs'
      exact (mk.inj (ok.inj hcs')).1.symm
    have hstep : s₁.publishAll (d :: after) = .ok (cs' ++ cs'', s₃) := by
      unfold publishAll
      rw [hcs']
      show (s₂.publishAll after >>= fun q => ok (cs' ++ q.1, q.2)) = _
      rw [hcs'']
      rfl
    have hwhole := publishAll_append hcs hstep
    rw [← hsplit] at hwhole
    obtain ⟨rfl, -⟩ := mk.inj (ok.inj (hall.symm.trans hwhole))
    rw [show shown filterToolCalls before = contentOf cs from
      hs₁.shown_eq] at hvisible
    have hcontent : ∃ text, SinkCall.onContent text ∈ cs := by
      by_contra hno
      push Not at hno
      exact hvisible (hs₁.substantial.contentOf_eq_nil.mpr hno)
    obtain ⟨text, hmem⟩ := hcontent
    obtain ⟨front, back, hfb⟩ := append_of_mem hmem
    refine ⟨front, text, back, d.text, cs'' ++ tail, ?_⟩
    rw [hfb, hd]
    simp

-- ============ the run

variable {J : Type}

/-- The end of a stream completes the content to the parsed text. -/
theorem finish_shown (json : JsonApi J) (newId : Nat → Bytes)
    (prepared : PreparedRequest) (g : Generation)
    (h : Shown prepared.toolCapable g.published calls s)
    {parsed : ParsedToolCallOutput}
    (hparsed : parseContent json newId prepared g.content = parsed) :
    ∃ tail, s.finish parsed.isToolCallResponse
        = .ok (tail, parsed.content.length)
      ∧ Substantial tail ∧ reasoningOf tail = []
      ∧ contentOf (calls ++ tail) = parsed.content
      ∧ ∀ reasoning, SinkCall.onReasoning reasoning ∉ tail := by
  subst hparsed
  unfold parseContent ServiceOutputSink.finish
  cases hmode : prepared.toolCapable with
  | false =>
    have hcontent : contentOf calls = g.content :=
      (h.plain hmode).trans g.content_published.symm
    refine ⟨[], ?_, nofun, rfl, ?_, fun _ => not_mem_nil⟩
    · rw [h.mode, hmode, h.counted, hcontent]
      rfl
    · rw [append_nil]
      exact hcontent
  | true =>
    obtain ⟨-, hfiltered⟩ := h.filtered hmode
    rw [← g.content_published] at hfiltered
    obtain ⟨tail, f', hfinish, hwhole, -⟩ := finish_content json newId
      prepared.toolNameMaxLength hfiltered
    obtain ⟨more, heq, hsub, htext, hnone, hno⟩ :=
      publishContent_spec { s with toolFilter := f' } tail
    rw [if_pos (h.mode.trans hmode), if_pos rfl, hfinish]
    refine ⟨more, ?_, hsub, hnone, ?_, hno⟩
    · show ok ((publishContent { s with toolFilter := f' } tail).1,
        (publishContent { s with toolFilter := f' } tail).2.contentBytes) = _
      rw [heq, ← hwhole, length_append, ← h.counted]
    · rw [contentOf_append, htext]
      exact hwhole

/-- A streamed generation: the calls carry the outcome, and the content
bytes are counted. -/
theorem runStreamed_spec (json : JsonApi J) (newId : Nat → Bytes)
    (prepared : PreparedRequest) (g : Generation) :
    ∃ calls outcome, runStreamed json newId prepared g = .ok (calls, outcome)
      ∧ outcome = .ofGeneration g (parseContent json newId prepared g.content)
        outcome.text.length
      ∧ Substantial calls ∧ reasoningOf calls = outcome.reasoning
      ∧ contentOf calls = outcome.text
      ∧ (Interleaved calls ↔
        ¬ ReasoningFirst prepared.toolCapable g.published) := by
  obtain ⟨calls, s, hall, hs⟩ :=
    publishAll_shown g.published (initial_shown prepared.toolCapable)
  rw [nil_append, nil_append] at hs
  unfold runStreamed
  generalize hparsed : parseContent json newId prepared g.content = parsed
  obtain ⟨tail, hfinish, hsub, hnone, hcontent, hno⟩ :=
    finish_shown json newId prepared g hs hparsed
  refine ⟨calls ++ tail, .ofGeneration g parsed parsed.content.length, ?_, rfl,
    hs.substantial.append hsub, ?_, hcontent, interleaved_iff hall hno⟩
  · rw [hall, ok_bind]
    dsimp only
    rw [hfinish]
    rfl
  · rw [reasoningOf_append, hnone, append_nil]
    exact hs.reasoning.trans g.reasoning_published.symm

end Ginfer.Serve
