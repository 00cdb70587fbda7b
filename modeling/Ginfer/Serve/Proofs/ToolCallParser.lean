/-
The streaming filter agrees with the batch parser.

The filter never publishes a byte that could still be part of a marker or
of the white space before one. `Filtered` is what it keeps: before a
marker is seen, what it has published and what it holds make up the text,
the published part ends in no white space and no marker can begin inside
it; from the first marker on, the published part is the trimmed text before
that marker — which is the content the batch parser gives a tool call
response. `feed_filtered` is one chunk, `feedAll_filtered` any number, and
`stream_agrees` the end of the text.

That a later chunk cannot complete an earlier marker rests on the markers
themselves: neither contains the beginning of one (`marker_simple`).

Apart from the filter, `parseToolCallOutput_made` says what every parsed
call is: a valid name, a drawn id and the dump of its arguments.
-/
import Ginfer.Serve.ToolCallParser
import Mathlib.Data.List.DropRight

namespace Ginfer.Serve

open Ginfer.Lib Ginfer.Frontend List Option Prod

-- ============ trimming

/-- Trimming only takes away the end. -/
theorem rtrim_head (text : Bytes) : rtrimAscii text <+: text := by
  unfold rtrimAscii
  have h : text.reverse.dropWhile isSpace <:+ text.reverse :=
    dropWhile_suffix isSpace
  rw [← reverse_prefix, reverse_reverse] at h
  exact h

/-- What a trimmed text ends in is kept when more is trimmed after it. -/
theorem rtrim_append {a : Bytes} (ha : rtrimAscii a = a) (b : Bytes) :
    rtrimAscii (a ++ b) = a ++ rtrimAscii b := by
  unfold rtrimAscii at ha ⊢
  rw [reverse_append, dropWhile_append]
  cases hb : (b.reverse.dropWhile isSpace).isEmpty with
  | true =>
    rw [if_pos rfl, ha, isEmpty_iff.mp hb]
    simp
  | false => simp

theorem rtrim_rtrim (text : Bytes) :
    rtrimAscii (rtrimAscii text) = rtrimAscii text := by
  unfold rtrimAscii
  rw [reverse_reverse, dropWhile_idempotent]

/-- A trimmed part published after a trimmed part is trimmed. -/
theorem rtrim_append_rtrim {a : Bytes} (ha : rtrimAscii a = a) (b : Bytes) :
    rtrimAscii (a ++ rtrimAscii b) = a ++ rtrimAscii b := by
  rw [rtrim_append ha, rtrim_rtrim]

-- ============ searches

variable {text : Bytes}

theorem find_some {pattern : Bytes} {i : Nat} (h : find text pattern = some i) :
    pattern <+: text.drop i ∧ ∀ j, j < i → ¬ pattern <+: text.drop j := by
  unfold find at h
  obtain ⟨hi, hmem, hbefore⟩ := List.find?_range_eq_some.mp h
  refine ⟨ isPrefixOf_iff_prefix.mp hi, fun j hj hpre => ?_⟩
  have := hbefore j hj
  rw [ isPrefixOf_iff_prefix.mpr hpre] at this
  exact absurd this (by decide)

theorem find_none {pattern : Bytes} (hpattern : pattern ≠ [])
    (h : find text pattern = none) (j : Nat) :
    ¬ pattern <+: text.drop j := by
  intro hpre
  by_cases hj : j < text.length + 1
  · have := List.find?_eq_none.mp h j (mem_range.mpr hj)
    exact this ( isPrefixOf_iff_prefix.mpr hpre)
  · rw [drop_of_length_le (by omega)] at hpre
    exact hpattern (prefix_nil.mp hpre)

/-- The longest suffix found is at least as long as any that begins the
marker. -/
theorem longestSuffixPrefix_ge {marker : Bytes} {size : Nat}
    (hsize : size < marker.length) (hle : size ≤ text.length)
    (hmatch : text.drop (text.length - size) = marker.take size) :
    size ≤ longestSuffixPrefix text marker false := by
  have hloop : ∀ n, size ≤ n →
      size ≤ suffixPrefixFrom text marker false n := by
    intro n
    induction n with
    | zero => intro h; exact h
    | succ n ih =>
      intro h
      unfold suffixPrefixFrom
      by_cases hlast : size = n + 1
      · subst hlast
        have hne : (n + 1 == marker.length) = false := by
          rw [beq_eq_false_iff_ne]
          omega
        rw [hne]
        simp [hmatch]
      · split
        · exact ih (by omega)
        · split
          · exact h
          · exact ih (by omega)
  unfold longestSuffixPrefix
  exact hloop _ (by omega)

-- ============ markers

namespace ToolCallStreamFilter

/-- A marker stands at `i`. -/
def AtMarker (text : Bytes) (i : Nat) : Prop :=
  ∃ c ∈ toolOpen, c <+: text.drop i

theorem toolOpen_ne_nil : ∀ c ∈ toolOpen, c ≠ [] := by decide

/-- Inside a marker no marker begins. -/
theorem marker_simple : ∀ c ∈ toolOpen, ∀ d ∈ toolOpen, ∀ k, 0 < k →
    ¬ d <+: c.drop k := by
  have hshort : ∀ c ∈ toolOpen, ∀ d ∈ toolOpen, ∀ k, k < 21 → 0 < k →
      ¬ d.isPrefixOf (c.drop k) := by decide +kernel
  have hlength : ∀ c ∈ toolOpen, c.length ≤ 21 := by decide
  intro c hc d hd k hk hpre
  by_cases hlt : k < 21
  · exact hshort c hc d hd k hlt hk ( isPrefixOf_iff_prefix.mpr hpre)
  · have hle := hlength c hc
    rw [drop_of_length_le (by omega)] at hpre
    exact toolOpen_ne_nil d hd (prefix_nil.mp hpre)

variable {text : Bytes} {m : Nat}

/-- `firstMarker` is the least position of a marker. -/
theorem firstMarker_some (h : firstMarker text = some m) :
    AtMarker text m ∧ ∀ j, j < m → ¬ AtMarker text j := by
  unfold firstMarker toolOpen at h
  simp only [foldl_cons, foldl_nil] at h
  have hat : ∀ j, AtMarker text j ↔
      ascii "<tool_call>" <+: text.drop j ∨
        ascii "<atem:function_calls>" <+: text.drop j := by
    intro j
    simp [AtMarker, toolOpen]
  cases hqwen : find text (ascii "<tool_call>") with
  | none =>
    have hno := find_none (by decide) hqwen
    rw [hqwen] at h
    cases hatem : find text (ascii "<atem:function_calls>") with
    | none => rw [hatem] at h; exact absurd h (by simp)
    | some i =>
      rw [hatem] at h
      obtain rfl : i = m := by simpa using h
      obtain ⟨hi, hbefore⟩ := find_some hatem
      exact ⟨(hat i).mpr (.inr hi), fun j hj hm =>
        ((hat j).mp hm).elim (hno j) (hbefore j hj)⟩
  | some q =>
    obtain ⟨hq, hbeforeq⟩ := find_some hqwen
    rw [hqwen] at h
    cases hatem : find text (ascii "<atem:function_calls>") with
    | none =>
      have hno := find_none (by decide) hatem
      rw [hatem] at h
      obtain rfl : q = m := by simpa using h
      exact ⟨(hat q).mpr (.inl hq), fun j hj hm =>
        ((hat j).mp hm).elim (hbeforeq j hj) (hno j)⟩
    | some i =>
      obtain ⟨hi, hbeforei⟩ := find_some hatem
      rw [hatem] at h
      obtain rfl : min q i = m := by simpa using h
      refine ⟨(hat _).mpr ?_, fun j hj hm =>
        ((hat j).mp hm).elim (hbeforeq j (by omega)) (hbeforei j (by omega))⟩
      rcases le_total q i with hle | hle
      · rw [Nat.min_eq_left hle]
        exact .inl hq
      · rw [Nat.min_eq_right hle]
        exact .inr hi

theorem firstMarker_none (h : firstMarker text = none)
    (j : Nat) : ¬ AtMarker text j := by
  unfold firstMarker toolOpen at h
  simp only [foldl_cons, foldl_nil] at h
  rintro ⟨c, hc, hpre⟩
  cases hqwen : find text (ascii "<tool_call>") with
  | none =>
    rw [hqwen] at h
    have hatem : find text (ascii "<atem:function_calls>") = none := by
      simpa using h
    simp only [toolOpen, mem_cons, not_mem_nil, or_false] at hc
    rcases hc with rfl | rfl
    · exact find_none (by decide) hqwen j hpre
    · exact find_none (by decide) hatem j hpre
  | some q =>
    rw [hqwen] at h
    cases hatem : find text (ascii "<atem:function_calls>") with
    | none => rw [hatem] at h; exact absurd h (by simp)
    | some i => rw [hatem] at h; exact absurd h (by simp)

/-- The least position of a marker is the first marker. -/
theorem firstMarker_eq (hm : AtMarker text m)
    (hbefore : ∀ j, j < m → ¬ AtMarker text j) :
    firstMarker text = some m := by
  cases h : firstMarker text with
  | none => exact absurd hm (firstMarker_none h m)
  | some i =>
    obtain ⟨hi, hbefore'⟩ := firstMarker_some h
    rcases lt_trichotomy i m with hlt | heq | hlt
    · exact absurd hi (hbefore i hlt)
    · rw [heq]
    · exact absurd hm (hbefore' m hlt)

/-- A marker that ends in the appended part began before it. -/
theorem prefix_append_cases {c a b : Bytes} (h : c <+: a ++ b) :
    c <+: a ∨ a <+: c :=
  prefix_or_prefix_of_prefix h (prefix_append a b)

/-- More text does not move the first marker. -/
theorem firstMarker_append (h : firstMarker text = some m) (more : Bytes) :
    firstMarker (text ++ more) = some m := by
  obtain ⟨⟨c, hc, hpre⟩, hbefore⟩ := firstMarker_some h
  have hm : m ≤ text.length := by
    by_contra hlt
    rw [drop_of_length_le (by omega)] at hpre
    exact toolOpen_ne_nil c hc (prefix_nil.mp hpre)
  refine firstMarker_eq ⟨c, hc, ?_⟩ ?_
  · rw [drop_append_of_le_length hm]
    exact hpre.trans (prefix_append _ _)
  · rintro j hj ⟨d, hd, hdprefix⟩
    rw [drop_append_of_le_length (by omega)] at hdprefix
    rcases prefix_append_cases hdprefix with hin | hout
    · exact hbefore j hj ⟨d, hd, hin⟩
    · -- the marker at `m` would stand inside the one at `j`
      refine marker_simple d hd c hc (m - j) (by omega) ?_
      have hshift : (text.drop j).drop (m - j) = text.drop m := by
        rw [drop_drop]
        congr 1
        omega
      obtain ⟨rest, rfl⟩ := hout
      have hj' : m - j ≤ (text.drop j).length := by
        rw [length_drop]
        omega
      rw [drop_append_of_le_length hj', hshift]
      exact hpre.trans (prefix_append _ _)

-- ============ the invariant

/-- What a filter keeps after the text `text`, of which it has published
`out`. -/
structure Filtered (text out : Bytes) (f : ToolCallStreamFilter) : Prop where
  going : f.finished = false
  counted : f.emittedBytes = out.length
  trimmed : rtrimAscii out = out
  /-- what was published and what is held make up the text -/
  whole : out ++ (f.pending ++ f.toolRegion) = text
  /-- before a marker: none in the text, and none begins in `out` -/
  before : f.sawToolMarker = false →
    f.toolRegion = [] ∧ firstMarker text = none ∧
      ∀ i, i < out.length → ∀ c ∈ toolOpen, ¬ text.drop i <+: c
  /-- from a marker on: the content is out -/
  after : f.sawToolMarker = true →
    f.pending = [] ∧ ∃ m, firstMarker text = some m ∧
      out = rtrimAscii (text.take m)

theorem initial_filtered : Filtered [] [] initial where
  going := rfl
  counted := rfl
  trimmed := rfl
  whole := rfl
  before _ := ⟨rfl, by decide +kernel, fun i hi => absurd hi (by simp)⟩
  after h := absurd h (by decide)

/-- A published part, put back before what is left, is the whole. -/
theorem visiblePart_append (text : Bytes) (safeEnd : Nat) :
    visiblePart text safeEnd ++ text.drop (visiblePart text safeEnd).length =
      text := by
  have hpre : visiblePart text safeEnd <+: text :=
    (rtrim_head _).trans ( take_prefix _ _)
  obtain ⟨rest, hrest⟩ := hpre
  generalize visiblePart text safeEnd = visible at hrest
  subst hrest
  rw [drop_left]

variable {out : Bytes} {f : ToolCallStreamFilter}

/-- Markers of the whole text stand in the part that is held. -/
theorem atMarker_held {held chunk : Bytes}
    (h : Filtered text out f) (hsaw : f.sawToolMarker = false)
    (hheld : out ++ held = text ++ chunk) (i : Nat) :
    AtMarker (text ++ chunk) i ↔
      out.length ≤ i ∧ AtMarker held (i - out.length) := by
  obtain ⟨-, hnone, hstart⟩ := h.before hsaw
  have hlen : out.length ≤ text.length := by
    have := congrArg List.length h.whole
    rw [length_append] at this
    omega
  constructor
  · rintro ⟨c, hc, hpre⟩
    by_cases hi : i < out.length
    · rw [drop_append_of_le_length (by omega)] at hpre
      rcases prefix_append_cases hpre with hin | hout
      · exact absurd ⟨c, hc, hin⟩ (firstMarker_none hnone i)
      · exact absurd hout (hstart i hi c hc)
    · refine ⟨Nat.not_lt.mp hi, c, hc, ?_⟩
      rw [← hheld, drop_append, drop_of_length_le (by omega),
        nil_append] at hpre
      exact hpre
  · rintro ⟨hi, c, hc, hpre⟩
    refine ⟨c, hc, ?_⟩
    rw [← hheld, drop_append, drop_of_length_le hi, nil_append]
    exact hpre

/-- No marker can begin in what a filter publishes while none is seen. -/
theorem no_partial_marker {held : Bytes} (hnone : firstMarker held = none)
    {i : Nat}
    (hi : i < (visiblePart held
      (held.length - longestMarkerPrefix held)).length) :
    ∀ c ∈ toolOpen, ¬ held.drop i <+: c := by
  intro c hc hpre
  have hvisible : i < held.length - longestMarkerPrefix held := by
    have hle := (rtrim_head
      (held.take (held.length - longestMarkerPrefix held))).length_le
    have hlt : i < (rtrimAscii
      (held.take (held.length - longestMarkerPrefix held))).length := hi
    rw [length_take] at hle
    omega
  -- the suffix from `i` on would be one of those held back
  have hsize : (held.drop i).length = held.length - i := length_drop
  have hlt : (held.drop i).length < c.length := by
    rcases Nat.lt_or_eq_of_le hpre.length_le with hlt | heq
    · exact hlt
    · have := hpre.eq_of_length heq
      exact absurd ⟨c, hc, this ▸ prefix_refl _⟩ (firstMarker_none hnone i)
  have hmatch : held.drop (held.length - (held.drop i).length) =
      c.take (held.drop i).length := by
    rw [hsize, show held.length - (held.length - i) = i by omega, ← hsize]
    exact prefix_iff_eq_take.mp hpre
  have hlong := longestSuffixPrefix_ge hlt (by omega) hmatch
  have hmax : longestSuffixPrefix held c false ≤
      longestMarkerPrefix held := by
    unfold longestMarkerPrefix toolOpen
    simp only [foldl_cons, foldl_nil]
    simp only [toolOpen, mem_cons, not_mem_nil, or_false] at hc
    rcases hc with rfl | rfl <;> omega
  omega

/-- One chunk keeps the invariant. -/
theorem feed_filtered (h : Filtered text out f) (chunk : Bytes) :
    ∃ visible f', f.feed chunk = .ok (visible, f') ∧
      Filtered (text ++ chunk) (out ++ visible) f' := by
  unfold feed
  rw [if_neg (by rw [h.going]; decide)]
  by_cases hempty : chunk.isEmpty = true
  · rw [if_pos hempty, isEmpty_iff.mp hempty]
    exact ⟨[], f, rfl, by simpa using h⟩
  rw [if_neg hempty]
  cases hsaw : f.sawToolMarker with
  | true =>
    rw [if_pos rfl]
    obtain ⟨hpending, m, hm, hout⟩ := h.after hsaw
    have hle : m ≤ text.length := by
      obtain ⟨⟨c, hc, hpre⟩, -⟩ := firstMarker_some hm
      by_contra hlt
      rw [drop_of_length_le (by omega)] at hpre
      exact toolOpen_ne_nil c hc (prefix_nil.mp hpre)
    refine ⟨[], _, rfl, ⟨h.going, ?_, ?_, ?_, ?_, ?_⟩⟩
    · simpa using h.counted
    · simpa using h.trimmed
    · rw [append_nil, ← h.whole]
      simp only [append_assoc]
    · intro hnot
      exact absurd (show true = false from hnot) (by decide)
    · intro _
      refine ⟨hpending, m, firstMarker_append hm chunk, ?_⟩
      rw [append_nil, take_append_of_le_length hle]
      exact hout
  | false =>
    rw [if_neg (by decide)]
    obtain ⟨hregion, hnone, hstart⟩ := h.before hsaw
    have hheld : out ++ (f.pending ++ chunk) = text ++ chunk := by
      rw [← h.whole, hregion]
      simp
    have hmarkers := atMarker_held h hsaw hheld
    dsimp only
    generalize f.pending ++ chunk = held at hheld hmarkers
    cases hfirst : firstMarker held with
    | some m =>
      obtain ⟨hm, hbefore⟩ := firstMarker_some hfirst
      refine ⟨_, _, rfl, ⟨h.going, ?_, ?_, ?_, ?_, ?_⟩⟩
      · simp [h.counted]
      · exact rtrim_append_rtrim h.trimmed _
      · show (out ++ visiblePart held m) ++
          ([] ++ held.drop (visiblePart held m).length) = _
        rw [nil_append, append_assoc, visiblePart_append, hheld]
      · intro hnot
        exact absurd (show true = false from hnot) (by decide)
      · intro _
        refine ⟨rfl, out.length + m, ?_, ?_⟩
        · refine firstMarker_eq ((hmarkers _).mpr ⟨by omega, ?_⟩) ?_
          · rw [Nat.add_sub_cancel_left]
            exact hm
          · intro j hj hat
            obtain ⟨hle, hat⟩ := (hmarkers j).mp hat
            exact hbefore _ (by omega) hat
        · rw [← hheld, take_length_add_append, rtrim_append h.trimmed]
          rfl
    | none =>
      refine ⟨_, _, rfl, ⟨h.going, ?_, ?_, ?_, ?_, ?_⟩⟩
      · simp [h.counted]
      · exact rtrim_append_rtrim h.trimmed _
      · show (out ++ visiblePart held _) ++
          (held.drop (visiblePart held _).length ++ f.toolRegion) = _
        rw [hregion, append_nil, append_assoc, visiblePart_append, hheld]
      · intro _
        refine ⟨hregion, ?_, fun i hi c hc => ?_⟩
        · cases hmarker : firstMarker (text ++ chunk) with
          | none => rfl
          | some m =>
            have hat := (hmarkers m).mp (firstMarker_some hmarker).1
            exact absurd hat.2 (firstMarker_none hfirst _)
        · by_cases hold : i < out.length
          · intro hpre
            have hlen : out.length ≤ text.length := by
              have := congrArg List.length h.whole
              rw [length_append] at this
              omega
            rw [drop_append_of_le_length (by omega)] at hpre
            exact hstart i hold c hc ((prefix_append _ _).trans hpre)
          · rw [← hheld, drop_append, drop_of_length_le (by omega), nil_append]
            refine no_partial_marker hfirst ?_ c hc
            rw [length_append] at hi
            omega
      · intro hyes
        exact absurd (show false = true from hyes) (by decide)

/-- Any number of chunks keeps it. -/
theorem feedAll_filtered (chunks : List Bytes) :
    ∀ {text out : Bytes} {f : ToolCallStreamFilter}, Filtered text out f →
      ∃ visible f', f.feedAll chunks = .ok (visible, f') ∧
        Filtered (text ++ chunks.flatten) (out ++ visible) f' := by
  induction chunks with
  | nil =>
    intro text out f h
    exact ⟨[], f, rfl, by simpa using h⟩
  | cons chunk rest ih =>
    intro text out f h
    obtain ⟨visible, f', hfeed, hf'⟩ := feed_filtered h chunk
    obtain ⟨more, f'', hrest, hf''⟩ := ih hf'
    refine ⟨visible ++ more, f'', ?_, ?_⟩
    · unfold feedAll
      rw [hfeed]
      show (f'.feedAll rest >>= fun p => Except.ok (visible ++ p.1, p.2)) = _
      rw [hrest]
      rfl
    · rw [flatten_cons, ← append_assoc, ← append_assoc]
      exact hf''

-- ============ the batch reader

variable {J : Type}

/-- A format either falls back to the text or cuts it at its marker. -/
theorem parseFormat_cases {marker : Bytes} {first : Nat}
    (hfind : find text marker = some first)
    (calls : Bytes → Option (List ToolCall)) :
    parseFormat marker calls text = fallback text ∨
      ∃ m found, some first = some m ∧ parseFormat marker calls text =
        ⟨true, rtrimAscii (text.take m), found⟩ := by
  unfold parseFormat
  rw [hfind]
  dsimp only
  cases calls (text.drop first) with
  | none => exact .inl rfl
  | some found =>
    dsimp only
    by_cases hempty : found.isEmpty = true
    · exact .inl (if_pos hempty)
    · exact .inr ⟨first, found, rfl, if_neg hempty⟩

/-- The first marker, from the two searches. -/
theorem firstMarker_def (text : Bytes) :
    firstMarker text =
      match find text (ascii "<tool_call>"),
        find text (ascii "<atem:function_calls>") with
      | some qwen, some atem => some (min qwen atem)
      | some qwen, none => some qwen
      | none, found => found := rfl

/-- What the batch parser gives: the text, or what stands before the first
marker of either format. -/
theorem parseToolCallOutput_cases (json : JsonApi J) (newId : Nat → Bytes)
    (maxToolNameLength : Nat) (text : Bytes) :
    parseToolCallOutput json newId maxToolNameLength text = fallback text ∨
      ∃ m found, firstMarker text = some m ∧
        parseToolCallOutput json newId maxToolNameLength text =
        ⟨true, rtrimAscii (text.take m), found⟩ := by
  rw [firstMarker_def]
  unfold parseToolCallOutput parseAtemFormat parseQwenFormat
  cases hatem : find text (ascii "<atem:function_calls>") with
  | none =>
    cases hqwen : find text (ascii "<tool_call>") with
    | none => exact .inl rfl
    | some qwen =>
      exact parseFormat_cases hqwen _
  | some atem =>
    cases hqwen : find text (ascii "<tool_call>") with
    | none =>
      exact parseFormat_cases hatem _
    | some qwen =>
      -- the format whose marker stands first is the one that is read
      dsimp only
      by_cases hlt : atem < qwen
      · rw [if_pos hlt, Nat.min_eq_right (le_of_lt hlt)]
        exact parseFormat_cases hatem _
      · rw [if_neg hlt, Nat.min_eq_left (Nat.not_lt.mp hlt)]
        exact parseFormat_cases hqwen _

-- ============ the end of the text

/-- Told what the batch parser found in the text, the filter releases the
rest of the batch parser's content. -/
theorem finish_content (json : JsonApi J) (newId : Nat → Bytes)
    (maxToolNameLength : Nat) (hf : Filtered text out f) :
    ∃ tail f', f.finish (parseToolCallOutput json newId maxToolNameLength
        text).isToolCallResponse = .ok (tail, f') ∧
      out ++ tail =
        (parseToolCallOutput json newId maxToolNameLength text).content ∧
      f'.emittedBytes = (parseToolCallOutput json newId maxToolNameLength
        text).content.length := by
  have hgoing : ¬ f.finished = true := by rw [hf.going]; decide
  rcases parseToolCallOutput_cases json newId maxToolNameLength text with
    hparse | ⟨m, found, hfirst, hparse⟩
  · -- the text is content: the tail is everything held back
    rw [hparse]
    refine ⟨f.pending ++ f.toolRegion, { f with
      pending := []
      toolRegion := []
      emittedBytes := f.emittedBytes + (f.pending ++ f.toolRegion).length
      finished := true }, ?_, hf.whole, ?_⟩
    · show f.finish false = _
      unfold finish
      rw [if_neg hgoing, if_neg Bool.false_ne_true]
    · show f.emittedBytes + (f.pending ++ f.toolRegion).length = text.length
      rw [hf.counted, ← length_append, hf.whole]
  · -- the text is a call: a marker was seen, and the content is out
    have hsaw : f.sawToolMarker = true := by
      cases hsaw : f.sawToolMarker with
      | true => rfl
      | false =>
        obtain ⟨-, hnone, -⟩ := hf.before hsaw
        exact absurd (hnone.symm.trans hfirst) (by simp)
    obtain ⟨-, m', hm', hout⟩ := hf.after hsaw
    obtain rfl : m = m' := some.inj (hfirst.symm.trans hm')
    rw [hparse]
    refine ⟨[], { f with pending := [], toolRegion := [], finished := true },
      ?_, ?_, ?_⟩
    · show f.finish true = _
      unfold finish
      rw [if_neg hgoing, if_pos rfl]
    · rw [append_nil, hout]
    · show f.emittedBytes = (rtrimAscii (text.take m)).length
      rw [hf.counted, hout]

/-- The filter, fed the text in any chunks and told what the batch parser
found, has published the batch parser's content, and counted it. -/
theorem stream_agrees (json : JsonApi J) (newId : Nat → Bytes)
    (maxToolNameLength : Nat) (chunks : List Bytes) :
    ∃ f, stream chunks (parseToolCallOutput json newId maxToolNameLength
          chunks.flatten).isToolCallResponse =
        .ok ((parseToolCallOutput json newId maxToolNameLength
          chunks.flatten).content, f) ∧
      f.emittedBytes = (parseToolCallOutput json newId maxToolNameLength
        chunks.flatten).content.length := by
  obtain ⟨out, f, hfeed, hf⟩ := feedAll_filtered chunks initial_filtered
  rw [List.nil_append, List.nil_append] at hf
  obtain ⟨tail, f', hfinish, hcontent, hcounted⟩ :=
    finish_content json newId maxToolNameLength hf
  refine ⟨f', ?_, hcounted⟩
  unfold stream
  rw [hfeed]
  show (f.finish _ >>= fun p => Except.ok (out ++ p.1, p.2)) = _
  rw [hfinish, ← hcontent]
  rfl

end ToolCallStreamFilter

-- ============ the calls

variable {J : Type}

/-- The values of the arguments are those of parameters. -/
def FromParameters (json : JsonApi J) (args : List (Bytes × J)) : Prop :=
  ∀ m ∈ args, ∃ raw, m.2 = parameterValue json raw

/-- A call as the parser makes it. -/
structure WellMade (json : JsonApi J) (newId : Nat → Bytes)
    (maxNameLength : Nat) (call : ToolCall) : Prop where
  name : validFunctionName call.name maxNameLength = true
  id : ∃ n, call.id = newId n
  arguments : ∃ args, call.argumentsJson = json.dump args
    ∧ FromParameters json args

variable {args : List (Bytes × J)} {key : Bytes} {value : J}

theorem setArgument_mem {m : Bytes × J} (h : m ∈ setArgument args key value) :
    m = (key, value) ∨ m ∈ args := by
  induction args with
  | nil => exact .inl (mem_singleton.mp h)
  | cons first rest ih =>
    obtain ⟨k, v⟩ := first
    unfold setArgument at h
    split at h
    case isTrue hk =>
      subst hk
      rcases mem_cons.mp h with heq | hin
      · exact .inl heq
      · exact .inr (.tail _ hin)
    case isFalse =>
      rcases mem_cons.mp h with heq | hin
      · exact .inr (heq ▸ (.head _))
      · rcases ih hin with heq | hrest
        · exact .inl heq
        · exact .inr (.tail _ hrest)

variable {json : JsonApi J}

theorem FromParameters.set (h : FromParameters json args) (key raw : Bytes) :
    FromParameters json (setArgument args key (parameterValue json raw)) := by
  intro m hm
  rcases setArgument_mem hm with rfl | hin
  · exact ⟨raw, rfl⟩
  · exact h m hin

/-- A parameter's value. -/
theorem parseParameter_value {inner : Bytes} {rest : Shorter inner}
    (h : parseParameter json inner = some (key, value, rest)) :
    ∃ raw, value = parameterValue json raw := by
  unfold parseParameter at h
  cases hnamed : parseNamed (ascii "<parameter=") (ascii ">")
      (ascii "</parameter>") inner (by decide) with
  | none =>
    rw [hnamed] at h
    cases h
  | some found =>
    obtain ⟨k, raw, r⟩ := found
    rw [hnamed] at h
    obtain ⟨-, hrest⟩ := mk.inj (some.inj h)
    exact ⟨trimAscii raw, (mk.inj hrest).1.symm⟩

variable {block : Bytes}

theorem parseAtemParameter_value {rest : Shorter block}
    (h : parseAtemParameter json block = some (key, value, rest)) :
    ∃ raw, value = parameterValue json raw := by
  unfold parseAtemParameter at h
  cases hnamed : parseNamed (ascii "<atem:parameter name=\"")
      (ascii "\">") (ascii "</atem:parameter>") block (by decide) with
  | none =>
    rw [hnamed] at h
    cases h
  | some found =>
    obtain ⟨k, raw, r⟩ := found
    rw [hnamed] at h
    obtain ⟨-, hrest⟩ := mk.inj (some.inj h)
    exact ⟨raw, (mk.inj hrest).1.symm⟩

theorem parseParameters_from {params : Bytes}
    {found : List (Bytes × J)} (hargs : FromParameters json args)
    (h : parseParameters json params args = some found) :
    FromParameters json found := by
  fun_induction parseParameters json params args with
  | case1 params args hempty =>
    cases h
    exact hargs
  | case2 params args hempty hnone => cases h
  | case3 params args hempty key value rest hrest hsome hless ih =>
    refine ih ?_ h
    obtain ⟨raw, rfl⟩ := parseParameter_value hsome
    exact hargs.set key raw

theorem parseAtemParameters_from {found : List (Bytes × J)}
    {rest : { r : Bytes // r.length ≤ block.length }}
    (hargs : FromParameters json args)
    (h : parseAtemParameters json block args = some (found, rest)) :
    FromParameters json found := by
  fun_induction parseAtemParameters json block args with
  | case1 block args r hr hclose =>
    obtain ⟨rfl, -⟩ := mk.inj (some.inj h)
    exact hargs
  | case2 block args hclose hnone => cases h
  | case3 block args hclose key value r hr hsome hskip ih =>
    obtain ⟨⟨found', rest'⟩, hfound, heq⟩ := map_eq_some_iff.mp h
    obtain ⟨rfl, -⟩ := mk.inj heq
    refine ih ?_ hfound
    obtain ⟨raw, rfl⟩ := parseAtemParameter_value hsome
    exact hargs.set key raw

variable {maxNameLength : Nat}

/-- One call of Qwen's format. -/
theorem parseOneToolCall_made {name : Bytes}
    (h : parseOneToolCall json block maxNameLength = some (name, args)) :
    validFunctionName name maxNameLength = true
      ∧ FromParameters json args := by
  unfold parseOneToolCall at h
  obtain ⟨⟨afterOpen, _⟩, -, h⟩ := bind_eq_some_iff.mp h
  obtain ⟨⟨named, afterName, _⟩, -, h⟩ := bind_eq_some_iff.mp h
  dsimp only at h
  split at h
  · cases h
  · split at h
    · cases h
    · rename_i hvalid
      obtain ⟨⟨body, rest, _⟩, -, h⟩ := bind_eq_some_iff.mp h
      obtain ⟨found, hargs, h⟩ := bind_eq_some_iff.mp h
      split at h
      · cases h
        refine ⟨?_, parseParameters_from (forall_mem_nil _) hargs⟩
        simpa using hvalid
      · cases h

variable {newId : Nat → Bytes} {calls found : List ToolCall}

theorem parseQwenCalls_made
    (hcalls : ∀ c ∈ calls, WellMade json newId maxNameLength c)
    (h : parseQwenCalls json newId maxNameLength text calls = some found) :
    ∀ c ∈ found, WellMade json newId maxNameLength c := by
  fun_induction parseQwenCalls json newId maxNameLength text calls with
  | case1 text calls hempty =>
    cases h
    exact hcalls
  | case2 text calls hempty hnone => cases h
  | case3 text calls hempty inner hinner hopen hnone => cases h
  | case4 text calls hempty inner hinner hopen block rest hrest hclose
      hnone => cases h
  | case5 text calls hempty inner hinner hopen block rest hrest hclose name
      args hone hless ih =>
      refine ih ?_ h
      intro c hc
      rcases mem_append.mp hc with hin | hnew
      · exact hcalls c hin
      · obtain rfl := mem_singleton.mp hnew
        obtain ⟨hname, hargs⟩ := parseOneToolCall_made hone
        exact ⟨hname, ⟨_, rfl⟩, args, rfl, hargs⟩

/-- One call of Muse's format. -/
theorem parseAtemInvoke_made {name : Bytes} {rest : Shorter block}
    (h : parseAtemInvoke json block maxNameLength = some (name, args, rest)) :
    validFunctionName name maxNameLength = true
      ∧ FromParameters json args := by
  unfold parseAtemInvoke at h
  obtain ⟨⟨afterOpen, _⟩, -, h⟩ := bind_eq_some_iff.mp h
  obtain ⟨⟨named, afterName, _⟩, -, h⟩ := bind_eq_some_iff.mp h
  dsimp only at h
  split at h
  · cases h
  · split at h
    · cases h
    · rename_i hvalid
      obtain ⟨⟨found, _⟩, hargs, h⟩ := bind_eq_some_iff.mp h
      obtain ⟨rfl, hrest⟩ := mk.inj (some.inj h)
      obtain ⟨rfl, -⟩ := mk.inj hrest
      refine ⟨?_, parseAtemParameters_from (forall_mem_nil _) hargs⟩
      simpa using hvalid

theorem parseAtemInvokes_made {rest : { r : Bytes // r.length ≤ text.length }}
    (hcalls : ∀ c ∈ calls, WellMade json newId maxNameLength c)
    (h : parseAtemInvokes json newId maxNameLength text calls
      = some (found, rest)) :
    ∀ c ∈ found, WellMade json newId maxNameLength c := by
  fun_induction parseAtemInvokes json newId maxNameLength text calls with
  | case1 text calls r hr hclose =>
    obtain ⟨rfl, -⟩ := mk.inj (some.inj h)
    exact hcalls
  | case2 text calls hclose hnone => cases h
  | case3 text calls hclose name args r hr hone hskip ih =>
    obtain ⟨⟨found', rest'⟩, hfound, heq⟩ := map_eq_some_iff.mp h
    obtain ⟨rfl, -⟩ := mk.inj heq
    refine ih ?_ hfound
    intro c hc
    rcases mem_append.mp hc with hin | hnew
    · exact hcalls c hin
    · obtain rfl := mem_singleton.mp hnew
      obtain ⟨hname, hargs⟩ := parseAtemInvoke_made hone
      exact ⟨hname, ⟨_, rfl⟩, args, rfl, hargs⟩

theorem parseAtemCalls_made
    (hcalls : ∀ c ∈ calls, WellMade json newId maxNameLength c)
    (h : parseAtemCalls json newId maxNameLength text calls = some found) :
    ∀ c ∈ found, WellMade json newId maxNameLength c := by
  fun_induction parseAtemCalls json newId maxNameLength text calls with
  | case1 text calls hempty =>
    cases h
    exact hcalls
  | case2 text calls hempty hnone => cases h
  | case3 text calls hempty inner hinner hopen hnone => cases h
  | case4 text calls hempty inner hinner hopen calls' rest hrest hblock
      hsame => cases h
  | case5 text calls hempty inner hinner hopen calls' rest hrest hblock
      hsame hless ih =>
      exact ih (parseAtemInvokes_made hcalls hblock) h

/-- Every call the batch reader finds is well made. -/
theorem parseToolCallOutput_made (json : JsonApi J) (newId : Nat → Bytes)
    (maxToolNameLength : Nat) (text : Bytes) :
    ∀ c ∈ (parseToolCallOutput json newId maxToolNameLength text).toolCalls,
      WellMade json newId maxToolNameLength c := by
  have hformat : ∀ (marker : Bytes) (calls : Bytes → Option (List ToolCall)),
      (∀ t found, calls t = some found →
        ∀ c ∈ found, WellMade json newId maxToolNameLength c) →
      ∀ c ∈ (parseFormat marker calls text).toolCalls,
        WellMade json newId maxToolNameLength c := by
    intro marker calls hmade c hc
    unfold parseFormat at hc
    split at hc
    · cases hc
    · split at hc
      · cases hc
      · rename_i found hfound
        split at hc
        · cases hc
        · exact hmade _ _ hfound c hc
  have hqwen := hformat (ascii "<tool_call>")
    (fun t => parseQwenCalls json newId maxToolNameLength t [])
    fun t found hfound => parseQwenCalls_made (forall_mem_nil _) hfound
  have hatem := hformat (ascii "<atem:function_calls>")
    (fun t => parseAtemCalls json newId maxToolNameLength t [])
    fun t found hfound => parseAtemCalls_made (forall_mem_nil _) hfound
  unfold parseToolCallOutput parseAtemFormat parseQwenFormat
  split
  · split
    · exact hatem
    · exact hqwen
  · exact hatem
  · exact hqwen
  · exact nofun

end Ginfer.Serve
