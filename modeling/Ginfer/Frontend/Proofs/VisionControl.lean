/-
The vision control builder accepts every processed prompt.

The builder recomputes what the processor laid down: the patches of each
item from its grid, the tokens of each span from the types. `takeMedia`
cuts the patches consecutively (`takeMedia_spec`), and the spans of the
items are the runs of pads of the types, in order (`ordered_visualRuns`).
With the two, every check of the builder passes (`controlItems_ok`).

The lengths are within int32: the budgets bound the patches, and the
runtime checks the length of the prompt against the context's before it
builds the control.
-/
import Ginfer.Frontend.Proofs.PadTokens
import Ginfer.Frontend.Proofs.Prepare
import Ginfer.Frontend.Proofs.VisionRuns

namespace Ginfer.Frontend.Multimodal

open Ginfer.Lib List
open Ginfer.Frontend.ChatTemplate
open Ginfer.Qwen (PromptModality VisionItem VisionGrid TokenSpan
  VisionItemControl controlSpans controlItem controlItems
  buildVisionControl)

-- ============ the runs of pads

/-- The tokens of a span. -/
def spanTokens (span : TokenSpan) : List Nat :=
  List.range' span.begin span.count

/-- Spans one after the other, each over tokens of its modality. -/
def Ordered (types : List Nat) (start : Nat) :
    List (PromptModality × TokenSpan) → Prop
  | [] => True
  | (m, span) :: rest =>
    start ≤ span.begin ∧ 0 < span.count ∧ span.end ≤ types.length
      ∧ (types.drop span.begin).take span.count = List.replicate span.count m.code
      ∧ Ordered types span.end rest

variable {types : List Nat} {start : Nat}

theorem Ordered.mono {start' : Nat} {spans : List (PromptModality × TokenSpan)}
    (h : Ordered types start spans) (hle : start' ≤ start) :
    Ordered types start' spans := by
  cases spans with
  | nil => trivial
  | cons span rest => exact ⟨le_trans hle h.1, h.2⟩

/-- The runs of pads are spans of the types. -/
theorem ordered_visualRuns (types : List Nat) :
    ∀ (runs : List (Nat × Nat)) (front : List Nat),
      types = front ++ runs.flatMap (fun run =>
        List.replicate run.2 run.1) →
      (∀ run ∈ runs, 0 < run.2) →
      Ordered types front.length (visualRuns front.length runs) := by
  intro runs
  induction runs with
  | nil => exact fun front _ _ => trivial
  | cons run rest ih =>
    intro front htypes hpos
    obtain ⟨hfirst, hrest⟩ := forall_mem_cons.mp hpos
    rw [flatMap_cons, ← append_assoc] at htypes
    have hnext := ih (front ++ replicate run.2 run.1) htypes hrest
    rw [length_append, length_replicate] at hnext
    rw [visualRuns]
    cases hm : codeModality run.1 with
    | none => exact hnext.mono (Nat.le_add_right _ _)
    | some m =>
      refine ⟨le_refl _, hfirst, ?_, ?_, hnext⟩
      · show front.length + run.2 ≤ types.length
        rw [htypes]
        simp only [length_append, length_replicate]
        omega
      · show (types.drop front.length).take run.2 = _
        rw [htypes, append_assoc, drop_left' rfl, take_left' (length_replicate),
          codeModality_eq_some.mp hm]

/-- Their tokens are the tokens that are not text. -/
theorem visualRuns_tokens (types : List Nat)
    (hcodes : ∀ code ∈ types, codeModality code = none → code = 0) :
    ∀ (runs : List (Nat × Nat)) (front : List Nat),
      types = front ++ runs.flatMap (fun run =>
        List.replicate run.2 run.1) →
      (visualRuns front.length runs).flatMap (spanTokens ·.2)
        = (List.range' front.length (runs.map (·.2)).sum).filter
        fun i => types.getD i 0 != 0 := by
  intro runs
  induction runs with
  | nil => exact fun front _ => rfl
  | cons run rest ih =>
    intro front htypes
    rw [flatMap_cons, ← append_assoc] at htypes
    have hnext := ih (front ++ replicate run.2 run.1) htypes
    rw [length_append, length_replicate] at hnext
    have hcode : ∀ i ∈ range' front.length run.2,
        types.getD i 0 = run.1 := by
      intro i hi
      rw [mem_range'_1] at hi
      rw [htypes, getD_eq_getElem?_getD, getElem?_append_left (by
          rw [length_append, length_replicate]
          omega),
        getElem?_append_right hi.1,
        getElem?_replicate_of_lt (by omega)]
      rfl
    rw [visualRuns, map_cons, sum_cons, ← range'_append_1,
      filter_append, ← hnext]
    by_cases hzero : run.2 = 0
    · rw [hzero]
      cases codeModality run.1 with
      | none => simp
      | some m => simp [spanTokens]
    have hmem : run.1 ∈ types := by
      rw [htypes]
      refine mem_append_left _ (mem_append_right _ ?_)
      exact mem_replicate.mpr ⟨hzero, rfl⟩
    cases hm : codeModality run.1 with
    | none =>
      have htext := hcodes run.1 hmem hm
      rw [filter_eq_nil_iff.mpr fun i hi => by
        rw [hcode i hi, htext]
        decide]
      rfl
    | some m =>
      have hvisual := codeModality_eq_some.mp hm
      rw [filter_eq_self.mpr fun i hi => by
        rw [hcode i hi, hvisual]
        cases m <;> rfl]
      rfl

-- ============ one item

/-- Where the last of some spans ends. -/
def spansEnd (start : Nat) (spans : List TokenSpan) : Nat :=
  (spans.getLast?.map TokenSpan.end).getD start

theorem spansEnd_cons (start : Nat) (span : TokenSpan) (rest : List TokenSpan) :
    spansEnd start (span :: rest) = spansEnd span.end rest := by
  unfold spansEnd
  rw [getLast?_cons]
  cases rest.getLast? with
  | none => rfl
  | some last => rfl

/-- The span loop takes ordered spans. -/
theorem controlSpans_ok {m : PromptModality} (hlength : types.length ≤ 2 ^ 31)
    (more : List (PromptModality × TokenSpan)) :
    ∀ (spans : List TokenSpan) (start : Nat) (scatter : List Nat),
      Ordered types start (spans.map (m, ·) ++ more) →
      controlSpans types m.code spans start scatter
        = .ok (scatter ++ spans.flatMap spanTokens)
        ∧ Ordered types (spansEnd start spans) more := by
  intro spans
  induction spans with
  | nil =>
    intro start scatter h
    rw [flatMap_nil, append_nil]
    exact ⟨rfl, h⟩
  | cons span rest ih =>
    intro start scatter h
    rw [map_cons, cons_append] at h
    obtain ⟨hstart, hpos, hend, htokens, hrest⟩ := h
    have hlimit : span.begin + span.count ≤ types.length := hend
    have hall : ((types.drop span.begin).take span.count).all
        (fun value => value == m.code) = true := by
      rw [htokens, all_replicate]
      simp
    obtain ⟨hloop, hmore⟩ :=
      ih span.end (scatter ++ spanTokens span) hrest
    rw [controlSpans, if_neg (by omega), if_neg (by omega),
      if_neg (by rw [hall]; decide), if_neg (by
        show ¬ 2 ^ 31 < span.begin + span.count
        omega)]
    refine ⟨?_, ?_⟩
    · show controlSpans types m.code rest span.end
        (scatter ++ spanTokens span) = _
      rw [hloop, flatMap_cons, append_assoc]
    · rw [spansEnd_cons]
      exact hmore

/-- The tokens of spans end where the spans do. -/
theorem spanTokens_last :
    ∀ (spans : List TokenSpan), spans ≠ [] → (∀ span ∈ spans, 0 < span.count) →
      ((spans.flatMap spanTokens).getLast?.map (· + 1)).getD 0
        = spansEnd start spans := by
  intro spans hne hpos
  obtain ⟨front, last, rfl⟩ : ∃ front last, spans = front ++ [last] :=
    ⟨_, _, (dropLast_append_getLast hne).symm⟩
  have hlast := hpos last (mem_append_right _ (.head _))
  obtain ⟨n, hn⟩ : ∃ n, last.count = n + 1 :=
    ⟨_, (Nat.sub_add_cancel hlast).symm⟩
  unfold spansEnd
  rw [flatMap_append, flatMap_singleton, getLast?_concat]
  unfold spanTokens TokenSpan.end
  rw [hn, range'_concat, ← append_assoc, getLast?_concat]
  simp only [Option.map_some, Option.getD_some]
  omega

/-- The geometry of an item of the processor. -/
structure Shaped (item : VisionItem) : Prop where
  temporal_pos : 0 < item.grid.temporal
  height_pos : 0 < item.grid.height
  width_pos : 0 < item.grid.width
  height_merged : item.grid.height % 2 = 0
  width_merged : item.grid.width % 2 = 0
  image_single : item.modality = .image → item.grid.temporal = 1
  patchCount_eq : item.patchCount = item.grid.temporal.toNat
    * item.grid.height.toNat * item.grid.width.toNat

variable {item : VisionItem}

/-- A shaped item has a token for four patches. -/
theorem Shaped.pads (h : Shaped item) :
    expectedSpans item = item.grid.temporal.toNat
      ∧ item.patchCount / 4 = itemPads item := by
  have hspans : expectedSpans item = item.grid.temporal.toNat := by
    unfold expectedSpans
    cases hm : item.modality with
    | image =>
      rw [h.image_single hm]
      rfl
    | video => rfl
  refine ⟨hspans, ?_⟩
  have hheight := h.height_merged
  have hwidth := h.width_merged
  obtain ⟨a, ha⟩ : ∃ a, item.grid.height.toNat = 2 * a :=
    ⟨item.grid.height.toNat / 2, by omega⟩
  obtain ⟨b, hb⟩ : ∃ b, item.grid.width.toNat = 2 * b :=
    ⟨item.grid.width.toNat / 2, by omega⟩
  unfold itemPads frameTokens merge
  rw [hspans, h.patchCount_eq, ha, hb, Nat.mul_div_cancel_left a Nat.two_pos,
    Nat.mul_div_cancel_left b Nat.two_pos,
    show item.grid.temporal.toNat * (2 * a) * (2 * b)
      = 4 * (item.grid.temporal.toNat * (a * b)) by ring]
  exact Nat.mul_div_cancel_left _ (by decide)

theorem Shaped.placeable (h : Shaped item) : Placeable item := by
  have hheight := h.height_pos
  have hheight' := h.height_merged
  have hwidth := h.width_pos
  have hwidth' := h.width_merged
  have htemporal := h.temporal_pos
  refine ⟨mul_pos ?_ ?_, ?_⟩
  · show 0 < item.grid.height.toNat / 2
    omega
  · show 0 < item.grid.width.toNat / 2
    omega
  · rw [h.pads.1]
    omega

/-- What the control of an item says of it. -/
structure Controls (item : VisionItem) (control : VisionItemControl) :
    Prop where
  modality : control.modality = item.modality
  grid : control.grid = item.grid
  patchBegin : control.patchBegin = item.patchBegin
  patchCount : control.patchCount = item.patchCount
  scatter : control.scatterIndices = item.tokenSpans.flatMap spanTokens
  merged : control.mergedCount = itemPads item
  segments : control.segmentCount * control.segmentLength = control.patchCount
  cuSeqlens : control.cuSeqlens = (List.range (control.segmentCount + 1)).map
    (· * control.segmentLength)

/-- The builder's control of an item whose spans are ordered. -/
theorem controlItem_ok {more : List (PromptModality × TokenSpan)}
    (hlength : types.length ≤ 2 ^ 31) (hshape : Shaped item)
    (hpatches : item.patchCount < 2 ^ 31) (hfit : SpansFit item)
    (hspans : item.tokenSpans.length = expectedSpans item)
    (hordered : Ordered types start
      (item.tokenSpans.map (item.modality, ·) ++ more)) :
    ∃ control, controlItem types item.patchBegin start item = .ok control
      ∧ Controls item control
      ∧ Ordered types (spansEnd start item.tokenSpans) more := by
  obtain ⟨hexpected, hpads⟩ := hshape.pads
  obtain ⟨hloop, hmore⟩ := controlSpans_ok hlength more item.tokenSpans
    start [] hordered
  rw [nil_append] at hloop
  have htokens : (item.tokenSpans.flatMap spanTokens).length
      = itemPads item := by
    rw [← spanTotal_eq hfit hspans, length_flatMap]
    unfold spanTotal spanTokens
    simp only [length_range']
  have hmodality : item.tokenSpans.length
      = if item.modality = .video then item.grid.temporal.toNat else 1 := by
    rw [hspans]
    unfold expectedSpans
    cases item.modality <;> rfl
  unfold controlItem
  dsimp only
  have htemporal := hshape.temporal_pos
  have hheight := hshape.height_pos
  have hwidth := hshape.width_pos
  have hheight' := hshape.height_merged
  have hwidth' := hshape.width_merged
  rw [if_neg (by omega), ← hshape.patchCount_eq, if_neg (by simp),
    if_neg (not_not.mpr hmodality), hloop]
  simp only [bind, Except.bind, pure, Except.pure]
  rw [if_neg (by rw [htokens, hpads]; exact not_not.mpr rfl), if_neg (by omega)]
  refine ⟨_, rfl, ⟨rfl, rfl, rfl, rfl, rfl, htokens, ?_, rfl⟩, hmore⟩
  rw [hshape.patchCount_eq, mul_assoc]

-- ============ the items

/-- Items with consecutive patches, the first at `cursor`. -/
def Canonical (cursor : Nat) : List VisionItem → Prop
  | [] => True
  | item :: rest =>
    item.patchBegin = cursor ∧ Shaped item
      ∧ Canonical (cursor + item.patchCount) rest

theorem shaped_bare (h : Shaped (bare item)) : Shaped item :=
  { h with }

theorem canonical_bare :
    ∀ (items items' : List VisionItem) (cursor : Nat),
      items.map bare = items'.map bare → Canonical cursor items' →
      Canonical cursor items := by
  intro items
  induction items with
  | nil => exact fun items' cursor _ _ => trivial
  | cons item items ih =>
    intro items' cursor hbare h
    cases items' with
    | nil => cases hbare
    | cons item' items' =>
      rw [map_cons, map_cons, cons.injEq] at hbare
      obtain ⟨hsame, hrest⟩ := hbare
      obtain ⟨hbegin, hshape, hmore⟩ := h
      have hpatches : (bare item).patchCount = (bare item').patchCount :=
        congrArg VisionItem.patchCount hsame
      have hbegins : (bare item).patchBegin = (bare item').patchBegin :=
        congrArg VisionItem.patchBegin hsame
      change item.patchCount = item'.patchCount at hpatches
      refine ⟨?_, shaped_bare ?_, ?_⟩
      · rw [← hbegin]
        exact hbegins
      · rw [hsame]
        exact { hshape with }
      · rw [hpatches]
        exact ih items' _ hrest hmore

/-- The item loop of the builder. -/
theorem controlItems_ok (hlength : types.length ≤ 2 ^ 31) :
    ∀ (items : List VisionItem) (cursor tokens start : Nat),
      Canonical cursor items →
      (∀ item ∈ items, item.patchCount < 2 ^ 31 ∧ SpansFit item
        ∧ item.tokenSpans.length = expectedSpans item) →
      Ordered types start (allSpans items) →
      ∃ controls, controlItems types items cursor tokens start
        = .ok (controls, cursor + (items.map (·.patchCount)).sum,
          tokens + (items.map itemPads).sum)
        ∧ List.Forall₂ Controls items controls := by
  intro items
  induction items with
  | nil =>
    intro cursor tokens start _ _ _
    exact ⟨[], rfl, .nil⟩
  | cons item items ih =>
    intro cursor tokens start hcanonical hitems hordered
    obtain ⟨hbegin, hshape, hrest⟩ := hcanonical
    obtain ⟨⟨hpatches, hfit, hspans⟩, hmore⟩ :=
      forall_mem_cons.mp hitems
    obtain ⟨control, hcontrol, hcontrols, hnext⟩ :=
      controlItem_ok hlength hshape hpatches hfit hspans hordered
    have hplace := hshape.placeable
    have hne : item.tokenSpans ≠ [] := by
      intro hnil
      rw [hnil, length_nil] at hspans
      have hpos := hplace.2
      omega
    have hpos : ∀ span ∈ item.tokenSpans, 0 < span.count := by
      intro span hspan
      rw [hfit span hspan]
      exact hplace.1
    obtain ⟨controls, hloop, hall⟩ := ih (cursor + item.patchCount)
      (tokens + itemPads item) _ hrest hmore hnext
    refine ⟨control :: controls, ?_, .cons hcontrols hall⟩
    rw [controlItems, ← hbegin, hcontrol]
    dsimp only
    rw [hcontrols.scatter, @spanTokens_last start _ hne hpos,
      hcontrols.patchCount, hcontrols.merged, hbegin, hloop,
      map_cons, map_cons, sum_cons, sum_cons,
      add_assoc, add_assoc]

theorem canonical_shaped :
    ∀ (items : List VisionItem) (cursor : Nat), Canonical cursor items →
      ∀ item ∈ items, Shaped item := by
  intro items
  induction items with
  | nil => exact fun cursor _ item hitem => absurd hitem not_mem_nil
  | cons first items ih =>
    intro cursor h
    exact forall_mem_cons.mpr ⟨h.2.1, ih _ h.2.2⟩

-- ============ the media

/-- What the budget adds. -/
theorem addBudget_ok {stats stats' : PreprocessStats} {grid : VisionGrid}
    (h : addBudget stats grid = .ok stats') :
    stats' = ⟨stats.rawPatches + grid.temporal.toNat
        * (grid.height.toNat * grid.width.toNat),
      stats.visionTokens + grid.temporal.toNat
        * (grid.height.toNat * grid.width.toNat) / 4⟩ := by
  unfold addBudget at h
  cases hspatial : checkedMul grid.height.toNat grid.width.toNat
      "vision spatial grid" with
  | error e =>
    rw [hspatial] at h
    cases h
  | ok spatial =>
    rw [hspatial] at h
    dsimp only [bind, Except.bind] at h
    cases hraw : checkedMul grid.temporal.toNat spatial
        "vision raw patches" with
    | error e =>
      rw [hraw] at h
      cases h
    | ok patches =>
      rw [hraw] at h
      dsimp only at h
      split at h
      · cases h
      · split at h
        · cases h
        · cases h
          rw [checkedMul_ok hraw, checkedMul_ok hspatial]
          rfl

/-- The item of a prepared medium has its geometry. -/
theorem shaped_item {media : PreparedMedia} (h : media.Shape)
    (cursor : Nat) : Shaped (media.item cursor) where
  temporal_pos := h.temporal_pos
  height_pos := h.height_pos
  width_pos := h.width_pos
  height_merged := h.height_merged
  width_merged := h.width_merged
  image_single := h.image_single
  patchCount_eq := by
    show media.patchElements / patchFeatures = _
    rw [h.elements_eq]
    exact Nat.mul_div_cancel _ (by decide)

/-- The items are consecutive and without tokens, and the counts are
theirs. -/
theorem takeMedia_spec {a : ResizeArithmetic}
    {scale : Int → Rat → Rat → Int} {options : ProcessorOptions} :
    ∀ (parts : List MediaPart) (cursor cursor' : Nat)
      (stats stats' : PreprocessStats) (items : List VisionItem)
      (payloads : List Nat),
      takeMedia a scale options parts cursor stats
        = .ok (items, payloads, cursor', stats') →
      Canonical cursor items ∧ (∀ item ∈ items, item.tokenSpans = [])
        ∧ stats'.rawPatches = stats.rawPatches + (items.map (·.patchCount)).sum
        ∧ stats'.visionTokens
        = stats.visionTokens + (items.map itemPads).sum := by
  intro parts
  induction parts with
  | nil =>
    intro cursor cursor' stats stats' items payloads h
    cases h
    exact ⟨trivial, fun item hitem => absurd hitem not_mem_nil, rfl, rfl⟩
  | cons part parts ih =>
    intro cursor cursor' stats stats' items payloads h
    rw [takeMedia] at h
    obtain ⟨media, hprepare, h⟩ := bind_ok.mp h
    have hwell := prepare_shape hprepare
    have haligned : media.patchElements % patchFeatures = 0 := by
      rw [hwell.elements_eq]
      exact Nat.mul_mod_left _ _
    simp only [bind, Except.bind, pure, Except.pure, haligned,
      ne_eq, not_true_eq_false, if_false] at h
    obtain ⟨stats₁, hbudget, h⟩ := bind_ok.mp h
    split at h
    · cases h
    · cases hmore : takeMedia a scale options parts
          (cursor + (media.item cursor).patchCount) stats₁ with
      | error e =>
        rw [hmore] at h
        cases h
      | ok taken =>
        obtain ⟨items₁, payloads₁, cursor₁, stats₂⟩ := taken
        rw [hmore] at h
        cases h
        have hshape := shaped_item hwell cursor
        obtain ⟨hcanonical, hfresh, hraw, htokens⟩ :=
          ih _ _ _ _ _ _ hmore
        have hadded := addBudget_ok hbudget
        have hpatches := hshape.patchCount_eq
        rw [mul_assoc] at hpatches
        rw [← hpatches] at hadded
        refine ⟨⟨rfl, hshape, hcanonical⟩,
          forall_mem_cons.mpr ⟨rfl, hfresh⟩, ?_, ?_⟩
        · rw [hraw, hadded, map_cons, sum_cons, add_assoc]
        · rw [htokens, hadded, map_cons, sum_cons, ← hshape.pads.2, add_assoc]

-- ============ the prompt

theorem encodeRenderedChat_ids {v : Vocabulary} {u : UnicodeTables}
    {rendered : RenderedChat} {encoded : EncodedChat}
    (h : encodeRenderedChat v u rendered = .ok encoded) :
    v.encodeText u rendered.text true = .ok encoded.inputIds := by
  unfold encodeRenderedChat at h
  cases hids : v.encodeText u rendered.text true with
  | error e =>
    rw [hids] at h
    cases h
  | ok ids =>
    rw [hids] at h
    dsimp only [bind, Except.bind] at h
    split at h
    · cases h
      rfl
    · obtain ⟨-, h⟩ := guard_ok.mp h
      split at h
      · cases h
      · obtain ⟨-, h⟩ := guard_ok.mp h
        obtain ⟨-, h⟩ := guard_ok.mp h
        cases h
        rfl

/-- The types of tokens are the pads among them. -/
theorem filterMap_tokenType (ids : List TokenId) :
    (ids.map tokenType).filterMap codeModality
      = ids.filterMap modalityOf := by
  rw [filterMap_map]
  refine filterMap_congr fun id _ => ?_
  show codeModality (tokenType id) = modalityOf id
  unfold tokenType modalityOf
  split
  · rfl
  · split <;> rfl

variable {input : ProcessedInput}

/-- What a processed prompt is made of. -/
theorem assemble_ok {p : Processor} {rendered : RenderedChat}
    {items : List VisionItem} {payloads : List Nat} {stats : PreprocessStats}
    (h : p.assemble rendered items payloads stats = .ok input) :
    ∃ expanded assigned, expandPlaceholders rendered items = .ok expanded
      ∧ p.vocabulary.encodeText p.tables expanded.text true = .ok input.inputIds
      ∧ stats.rawPatches ≤ p.options.maxRawPatches
      ∧ input.tokenTypes = input.inputIds.map tokenType
      ∧ assignPositions input.tokenTypes items = .ok assigned
      ∧ input.visionItems = assigned.items ∧ input.stats = stats := by
  unfold Processor.assemble at h
  cases hexpand : expandPlaceholders rendered items with
  | error e =>
    rw [hexpand] at h
    cases h
  | ok expanded =>
    rw [hexpand] at h
    dsimp only [bind, Except.bind] at h
    obtain ⟨encoded, hencode, h⟩ := bind_ok.mp h
    cases hlimits : enforceMediaResourceLimits stats p.options with
    | error e =>
      rw [hlimits] at h
      cases h
    | ok _ =>
      rw [hlimits] at h
      dsimp only at h
      cases hassign : assignPositions
          (encoded.inputIds.map tokenType) items with
      | error e =>
        rw [hassign] at h
        cases h
      | ok assigned =>
        rw [hassign] at h
        cases h
        refine ⟨expanded, assigned, rfl,
          encodeRenderedChat_ids hencode, ?_, rfl, hassign, rfl,
          rfl⟩
        unfold enforceMediaResourceLimits at hlimits
        split at hlimits
        · cases hlimits
        · omega

theorem process_ok {p : Processor} {messages : List ChatMessage}
    {renderOptions : ChatRenderOptions} {parts : List MediaPart}
    (h : p.process messages renderOptions parts = .ok input) :
    ∃ rendered items payloads cursor stats,
      takeMedia p.arithmetic p.scale p.options parts 0 ⟨0, 0⟩ = .ok (items, payloads, cursor, stats)
        ∧ p.assemble rendered items payloads stats = .ok input := by
  unfold Processor.process at h
  dsimp only [bind, Except.bind] at h
  split at h
  · cases h
  · split at h
    · cases h
    · split at h
      · cases h
      · next rendered _ =>
        split at h
        · cases h
        · next taken htaken =>
          obtain ⟨items, payloads, cursor, stats⟩ := taken
          dsimp only at h
          obtain ⟨-, h⟩ := guard_ok.mp h
          exact ⟨rendered, items, payloads, cursor, stats, htaken, h⟩

/-- Consecutive patches are all patches. -/
theorem canonical_patches :
    ∀ (items : List VisionItem) (controls : List VisionItemControl)
      (cursor : Nat), Canonical cursor items →
      List.Forall₂ Controls items controls →
      controls.flatMap (fun control =>
        List.range' control.patchBegin control.patchCount)
        = List.range' cursor (items.map (·.patchCount)).sum := by
  intro items
  induction items with
  | nil =>
    intro controls cursor _ h
    cases h
    rfl
  | cons item items ih =>
    intro controls cursor hcanonical h
    cases h with
    | cons hcontrol hrest =>
      obtain ⟨hbegin, -, hmore⟩ := hcanonical
      rw [flatMap_cons, ih _ _ hmore hrest, hcontrol.patchBegin,
        hcontrol.patchCount, hbegin, map_cons, sum_cons,
        range'_append_1]

theorem scatter_eq {items : List VisionItem} {controls : List VisionItemControl}
    (h : List.Forall₂ Controls items controls) :
    controls.flatMap (·.scatterIndices)
      = (allSpans items).flatMap (spanTokens ·.2) := by
  induction h with
  | nil => rfl
  | cons hcontrol _ ih =>
    unfold allSpans at ih ⊢
    rw [flatMap_cons, flatMap_cons, flatMap_append, ih,
      hcontrol.scatter, flatMap_map]

/-- The builder accepts what the processor returns. Its scatter indices
are the pad tokens in increasing order, its patch ranges are the patches
one item after the other, and the segments of an item are its patches. -/
theorem visionControl_of_process {p : Processor}
    {messages : List ChatMessage} {renderOptions : ChatRenderOptions}
    {parts : List MediaPart} {input : ProcessedInput}
    (hascii : p.tables.ReadsAscii)
    (hbudget : p.options.maxRawPatches
      ≤ maximumVisionTokens * rawPatchesPerVisionToken)
    (h : p.process messages renderOptions parts = .ok input)
    (hlength : input.inputIds.length ≤ 2 ^ 31) :
    ∃ controls, buildVisionControl input.prepared = .ok controls
      ∧ controls.flatMap (·.scatterIndices)
        = (List.range input.tokenTypes.length).filter
          (fun i => input.tokenTypes.getD i 0 != 0)
      ∧ controls.flatMap (fun control =>
          List.range' control.patchBegin control.patchCount)
        = List.range input.stats.rawPatches
      ∧ List.Forall₂ Controls input.visionItems controls := by
  obtain ⟨rendered, items, payloads, cursor, stats, htaken, hassemble⟩ :=
    process_ok h
  obtain ⟨expanded, assigned, hexpand, hencode, hlimit, htypes, hassign,
    hvision, hstats⟩ := assemble_ok hassemble
  obtain ⟨hcanonical, hfresh, hraw, htokens⟩ := takeMedia_spec _ _ _ _ _ _ _
    htaken
  have hplace : ∀ item ∈ items, Placeable item := fun item hitem =>
    (canonical_shaped items 0 hcanonical item hitem).placeable
  have hpads : (input.tokenTypes.filterMap codeModality).Sublist
      (items.flatMap fun item =>
        replicate (itemPads item) item.modality) := by
    rw [htypes, filterMap_tokenType, ← expandPlaceholders_pads hplace hexpand]
    exact encodeText_pads p hascii hencode
  obtain ⟨hbare, hitems, hspans⟩ := assignPositions_spans hassign hfresh
    hplace hpads
  rw [← hvision] at hbare hitems hspans
  -- What the processor counted is what the items have.
  have hsame : ∀ f : VisionItem → Nat, (∀ item, f item = f (bare item)) →
      (input.visionItems.map f).sum = (items.map f).sum := by
    intro f hf
    have hmap : ∀ items : List VisionItem,
        items.map f = (items.map bare).map f := by
      intro items
      rw [map_map]
      exact map_congr_left fun item _ => hf item
    rw [hmap input.visionItems, hbare, ← hmap]
  have hpatches := hsame (·.patchCount) fun _ => rfl
  have hmerged := hsame itemPads fun _ => rfl
  rw [Nat.zero_add] at hraw htokens
  have hcanonical' := canonical_bare _ _ 0 hbare hcanonical
  have hsmall : ∀ item ∈ input.visionItems, item.patchCount < 2 ^ 31 := by
    intro item hitem
    have hle : item.patchCount
        ≤ (input.visionItems.map (·.patchCount)).sum := by
      obtain ⟨before, after, heq⟩ := append_of_mem hitem
      rw [heq, map_append, map_cons, sum_append, sum_cons]
      omega
    have hmax : maximumVisionTokens * rawPatchesPerVisionToken < 2 ^ 31 := by
      decide
    omega
  have hcount : input.tokenTypes.length = input.inputIds.length := by
    rw [htypes, length_map]
  have hruns := typeRuns_flatten input.tokenTypes
  have hordered := ordered_visualRuns input.tokenTypes
    (typeRuns input.tokenTypes) [] hruns.symm
    (typeRuns_pos input.tokenTypes)
  rw [length_nil, ← hspans] at hordered
  obtain ⟨controls, hloop, hcontrols⟩ := controlItems_ok
    (by rw [hcount]; exact hlength) input.visionItems 0 0 0 hcanonical'
    (fun item hitem => ⟨hsmall item hitem, hitems item hitem⟩) hordered
  have hcodes : ∀ code ∈ input.tokenTypes,
      codeModality code = none → code = 0 := by
    rw [htypes]
    intro code hcode
    obtain ⟨id, -, rfl⟩ := mem_map.mp hcode
    unfold tokenType
    split
    · exact fun hnone => absurd hnone (by decide)
    · split
      · exact fun hnone => absurd hnone (by decide)
      · exact fun _ => rfl
  refine ⟨controls, ?_, ?_, ?_, hcontrols⟩
  · unfold buildVisionControl
    rw [if_neg (by exact not_not.mpr hcount.symm)]
    rw [show controlItems input.prepared.tokenTypes input.prepared.visionItems
      0 0 0 = _ from hloop]
    dsimp only
    refine if_neg (not_or.mpr ⟨not_not.mpr ?_, not_not.mpr ?_⟩)
    · rw [Nat.zero_add, hpatches]
      exact (hraw.symm.trans (congrArg _ hstats.symm))
    · rw [Nat.zero_add, hmerged]
      exact (htokens.symm.trans (congrArg _ hstats.symm))
  · rw [scatter_eq hcontrols, hspans]
    have htokens' := visualRuns_tokens input.tokenTypes hcodes
      (typeRuns input.tokenTypes) [] hruns.symm
    rw [length_nil] at htokens'
    rw [htokens', range_eq_range']
    have hsum : ((typeRuns input.tokenTypes).map (·.2)).sum
        = input.tokenTypes.length := by
      conv_rhs => rw [← hruns]
      rw [length_flatMap]
      simp only [length_replicate]
    rw [hsum]
  · rw [canonical_patches _ _ 0 hcanonical' hcontrols, hpatches, hstats,
      hraw, range_eq_range']

/-- A video of four pictures, a second each, of one merged patch. -/
def shortVideo : MediaPart where
  bytes := 10
  contentDigest := 7
  source := .video {
    nbFrames := 4
    duration := 4
    fps := 1
    codedWidth := 32
    codedHeight := 32
    frames := List.replicate 4 ⟨32, 32, .ok (32, 32)⟩
    failure := none }
  admitted := .ok ()

/-- The sides of a resize, without rounding. -/
def exactSides : ResizeArithmetic where
  shrink side pixels bound :=
    Nat.sqrt (side.toNat ^ 2 * bound / (pixels * factor.toNat ^ 2))
  grow side pixels bound :=
    Nat.sqrt ((side.toNat ^ 2 * bound - 1) / (pixels * factor.toNat ^ 2)) + 1
  grow_pos := fun _ _ _ _ _ _ => by omega

/-- The tags of a prompt with that video as added tokens. -/
def tagVocabulary : Vocabulary where
  vocab := []
  added :=
    [⟨248056, padChars .image, true⟩, ⟨248057, padChars .video, true⟩,
      ⟨1, ("<|im_start|>user\n<|vision_start|>" ++
        "<0.5 seconds><|vision_start|>").toList, true⟩,
      ⟨2, "<|vision_end|><2.5 seconds><|vision_start|>".toList, true⟩,
      ⟨3, ("<|vision_end|><|vision_end|><|im_end|>\n" ++
        "<|im_start|>assistant\n").toList, true⟩,
      ⟨4, "<think>\n".toList, true⟩]
  merges := []
  hasBpeMerges := true
  merges_loaded := rfl
  vocab_ids := by decide
  added_ids := by decide
  added_apart := by decide
  added_content := by decide

/-- A processor with these tags, and no bound that would scale the video. -/
def tagProcessor : Processor where
  vocabulary := tagVocabulary
  tables := Vocabulary.asciiTables
  json := ⟨fun _ => .error (.invalidArgument ""), id⟩
  semantics := .thinkingToggle
  options := { visionBudget 4096 1024 with videoMinPixels := 32 * 32 }
  arithmetic := exactSides
  scale := scaledCount
  image_pad := by rfl
  video_pad := by rfl

theorem asciiTables_readsAscii : Vocabulary.asciiTables.ReadsAscii where
  nfc _ _ := rfl
  less := rfl
  bar := rfl
  letter_i := rfl
  letter_v := rfl

/-- A prompt with that video: its two frames are a token each, with the
second timestamp between them. -/
theorem visionControl_of_process_video :
    ∃ input controls,
      tagProcessor.process [⟨.user, [.video], [], [], []⟩] {}
          [shortVideo] = .ok input
        ∧ input.inputIds = [1, 248057, 2, 248057, 3, 4]
        ∧ buildVisionControl input.prepared = .ok controls
        ∧ controls.flatMap (·.scatterIndices) = [1, 3] := by
  have hread : (tagProcessor.process [⟨.user, [.video], [], [], []⟩] {}
      [shortVideo]).toOption.map
        (fun input => (input.inputIds, input.tokenTypes))
      = some ([1, 248057, 2, 248057, 3, 4], [0, 2, 0, 2, 0, 0]) := by
    decide +kernel
  cases hprocess : tagProcessor.process [⟨.user, [.video], [], [], []⟩] {}
      [shortVideo] with
  | error e =>
    rw [hprocess] at hread
    cases hread
  | ok input =>
    rw [hprocess] at hread
    obtain ⟨hids, htypes⟩ := Prod.mk.inj (Option.some.inj hread)
    obtain ⟨controls, hbuild, hscatter, -⟩ := visionControl_of_process
      asciiTables_readsAscii (by decide) hprocess (by rw [hids]; decide)
    rw [htypes] at hscatter
    exact ⟨input, controls, rfl, hids, hbuild, hscatter.trans (by decide)⟩

end Ginfer.Frontend.Multimodal
