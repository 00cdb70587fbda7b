/-
The MTP backend beside the text lanes: its pages and its chunks.

The MTP cache runs at most a draft window ahead of the text, so a
request's pages there are its text pages and at most those of the window.
The pool has as many for every lane, so whatever set of requests the text
pool can hold, the MTP pool can (`mtp_pages_fit`).

A prefill chunk embeds, for the MTP head, the tokens one ahead of its
columns. Chunk after chunk these are the tokens after the first column,
each in one chunk, also where a run of visual tokens goes on over a
chunk's end (`mtp_overlaps_partition`).
-/
import Ginfer.Qwen.MtpAlignment
import Ginfer.Qwen.Proofs.Plan

namespace Ginfer.Qwen

open Ginfer.Lib Ginfer.Pool Ginfer.Admission List

-- ============ the pages

/-- A draft window past the reserved tokens takes at most the pages of the
window more. -/
theorem requestPages_add_le {reserved window capacity : Nat}
    (hreserved : 0 < reserved) (hwindow : 0 < window) :
    requestPages (min capacity (reserved + window - 1))
      ≤ requestPages reserved
        + (window - 1 + pagedKVPageSize - 1) / pagedKVPageSize := by
  unfold requestPages pagedKVPageSize
  omega

/-- What a planned request takes of the MTP pool, against what it takes of
the text pool. -/
theorem mtp_entitlement_le {c : Config} {p : PreparedPromptData}
    {options : ResolvedExecutionOptions} {base : RequestBasePlan}
    (hmtp : c.speculativeBackend = .mtp)
    (h : planRequestBase c p options = .ok base) :
    base.backendKVPageEntitlement ≤ base.textKVPageEntitlement
      + (c.draftWindow - 1 + pagedKVPageSize - 1) / pagedKVPageSize := by
  obtain ⟨hprompt, -, -, -, -, -, -, htext, hbackend, -⟩ :=
    planRequestBase_ok h
  rw [htext, hbackend]
  unfold backendEntitlement
  rw [hmtp]
  refine requestPages_add_le ?_ (c.draft_window_mtp hmtp).1
  unfold reservedContextTokens
  have := hprompt.nonempty
  omega

/-- For requests one by one within `extra` of their text pages, the sum is
within `extra` times their number. -/
theorem sum_entitlement_le {bases : List RequestBasePlan} {extra : Nat}
    (h : ∀ base ∈ bases, base.backendKVPageEntitlement
      ≤ base.textKVPageEntitlement + extra) :
    (bases.map (·.backendKVPageEntitlement)).sum
      ≤ (bases.map (·.textKVPageEntitlement)).sum + bases.length * extra
    := by
  induction bases with
  | nil => exact Nat.zero_le _
  | cons base rest ih =>
    have hhead := h base (.head _)
    have htail := ih fun b hb => h b (.tail _ hb)
    simp only [map_cons, sum_cons, length_cons, Nat.succ_mul]
    omega

/-- The requests the text pool has pages for, at most one a lane: the MTP
pool has pages for them. -/
theorem mtp_pages_fit (c : Config) (hmtp : c.speculativeBackend = .mtp)
    (bases : List RequestBasePlan)
    (hplanned : ∀ base ∈ bases, ∃ p options,
      planRequestBase c p options = .ok base)
    (hlanes : bases.length ≤ c.maxConcurrency)
    (htext : (bases.map (·.textKVPageEntitlement)).sum ≤ c.pageGroups .text) :
    (bases.map (·.backendKVPageEntitlement)).sum
      ≤ c.pageGroups .backend := by
  have hsum := @sum_entitlement_le bases _ fun base hbase => by
    obtain ⟨p, options, h⟩ := hplanned base hbase
    exact mtp_entitlement_le hmtp h
  have hextra := Nat.mul_le_mul_right
    ((c.draftWindow - 1 + pagedKVPageSize - 1) / pagedKVPageSize) hlanes
  have htextPages : c.pageGroups .text = c.mainPageGroups := rfl
  have hbackendPages : c.pageGroups .backend = c.mainPageGroups
      + c.maxConcurrency
        * ((c.draftWindow - 1 + pagedKVPageSize - 1) / pagedKVPageSize) :=
    if_pos hmtp
  rw [htextPages] at htext
  rw [hbackendPages]
  omega

/-- Two MTP lanes with a draft window of three tokens. -/
def twoMtpLanes : Config where
  speculativeBackend := .mtp
  capacity := 64
  maxConcurrency := 2
  prefillChunk := 2
  draftWindow := 3
  dflashFullLayers := 0
  sampledDFlash2 := false
  dflashLocalCapacity := 1
  visionEnabled := true
  visionOutHidden := 1
  visionWorkspaceFits := fun _ => true
  mainPageGroups := 2
  capacity_pos := by decide
  capacity_le := by decide
  max_concurrency_pos := Nat.zero_lt_two
  max_concurrency_le := (by decide : 2 ≤ 8)
  prefill_chunk_pos := Nat.zero_lt_two
  draft_window_mtp := fun _ => by decide
  draft_window_dflash := nofun
  dflash_excludes_vision := nofun
  dflash_local_capacity_pos := Nat.one_pos
  vision_out_hidden_pos := Nat.one_pos
  main_page_groups_covers := by decide
  main_page_groups_lanes := Nat.le.refl
  main_page_groups_fits := by decide

/-- A prompt of two tokens for an output of three. -/
def twoTokens : PreparedPromptData :=
  ⟨[1, 2], [0, 0], [0, 1, 0, 1, 0, 1], 0, [], [], true, none, 0, 0⟩

/-- Its base plan: a page of each pool. -/
def twoTokensBase : RequestBasePlan where
  summary := ⟨2, 0, 3, 0, 1, ⟨1, 1, 1⟩, 3⟩
  textKVPageEntitlement := 1
  backendKVPageEntitlement := 1
  visionControl := none
  visionTransientBytes := 0
  rewriteCheckpoint := none
  allowPrefixReuse := true

/-- Both lanes planned at once. -/
theorem mtp_pages_fit_two :
    ([twoTokensBase, twoTokensBase].map (·.backendKVPageEntitlement)).sum
      ≤ twoMtpLanes.pageGroups .backend := by
  have hplan : planRequestBase twoMtpLanes twoTokens
      ⟨3, true, ⟨some 1, some 1, some 0, some 0, some 0⟩⟩
        = .ok twoTokensBase := by
    rfl
  refine mtp_pages_fit twoMtpLanes rfl _ (fun base hbase => ?_)
    (by decide) (by decide)
  rcases mem_cons.mp hbase with rfl | hbase
  · exact ⟨_, _, hplan⟩
  · rw [mem_singleton.mp hbase]
    exact ⟨_, _, hplan⟩

-- ============ the chunks

/-- On a sorted list the values before the lower bound are the lesser
ones. -/
theorem takeWhile_eq_filter {values : List Int}
    (hsorted : values.Pairwise (· < ·)) (value : Int) :
    values.takeWhile (fun v => decide (v < value))
        = values.filter (fun v => decide (v < value))
      ∧ values.dropWhile (fun v => decide (v < value))
        = values.filter (fun v => decide (value ≤ v)) := by
  induction values with
  | nil => exact ⟨rfl, rfl⟩
  | cons v rest ih =>
    obtain ⟨hv, hrest⟩ := pairwise_cons.mp hsorted
    by_cases hlt : v < value
    · have hnle : ¬ value ≤ v := by omega
      simp only [takeWhile_cons, dropWhile_cons,
        filter_cons, hlt, hnle, decide_true, decide_false, if_true,
        Bool.false_eq_true, if_false]
      exact ⟨congrArg _ (ih hrest).1, (ih hrest).2⟩
    · have hle : value ≤ v := by omega
      have hnone : rest.filter (fun w => decide (w < value)) = [] := by
        rw [filter_eq_nil_iff]
        intro w hw
        have := hv w hw
        simp only [decide_eq_true_eq]
        omega
      have hall : rest.filter (fun w => decide (value ≤ w)) = rest := by
        rw [filter_eq_self]
        intro w hw
        have := hv w hw
        simp only [decide_eq_true_eq]
        omega
      simp only [takeWhile_cons, dropWhile_cons,
        filter_cons, hlt, hle, decide_true, decide_false, if_true,
        Bool.false_eq_true, if_false, hnone, hall, and_self]

/-- The values from the lower bound on. -/
theorem drop_lowerBound {values : List Int}
    (hsorted : values.Pairwise (· < ·)) (value : Int) :
    values.drop (lowerBound values value)
      = values.filter fun v => decide (value ≤ v) := by
  rw [← (takeWhile_eq_filter hsorted value).2]
  conv_lhs => rw [← takeWhile_append_dropWhile
    (p := fun v => decide (v < value)) (l := values)]
  exact drop_left' (congrArg length (by
    rw [takeWhile_append_dropWhile]))

/-- The values before it. -/
theorem take_lowerBound {values : List Int}
    (hsorted : values.Pairwise (· < ·)) (value : Int) :
    values.take (lowerBound values value)
      = values.filter fun v => decide (v < value) := by
  rw [← (takeWhile_eq_filter hsorted value).1]
  conv_lhs => rw [← takeWhile_append_dropWhile
    (p := fun v => decide (v < value)) (l := values)]
  exact take_left' (congrArg length (by
    rw [takeWhile_append_dropWhile]))

theorem castInt32_eq {value : Nat} (h : value < 2 ^ 31) :
    castInt32 value = value := by
  unfold castInt32
  exact Int.bmod_eq_of_le (by omega) (by omega)

/-- The tokens after column `begin` and up to `stop`, of a prompt of `n`
tokens. -/
def inShifted (begin stop n : Nat) (v : Int) : Bool :=
  decide ((begin : Int) < v ∧ v ≤ stop ∧ v < n)

section

variable {scatter : List Int} (hsorted : scatter.Pairwise (· < ·))
  (hnonneg : ∀ v ∈ scatter, 0 ≤ v) {n : Nat} (hn : n < 2 ^ 31)

include hsorted hnonneg hn in
/-- The overlap of a chunk: the visual tokens in its shifted range, in
order, from the first of them on. -/
theorem shiftedVisualOverlap_spec {begin columns : Nat}
    (hcolumns : 0 < columns) (hfits : begin + columns ≤ n) (final : Bool) :
    ∃ overlap, shiftedVisualOverlap scatter n
        ⟨begin, begin, begin + 1, columns, final⟩ = .ok overlap
      ∧ overlap.destinationColumns
        = (scatter.filter (inShifted begin (begin + columns) n)).map
        (fun v => v - ((begin : Int) + 1))
      ∧ (overlap.size = 0 ∨ overlap.sourceBegin
        = scatter.countP fun v => decide (v ≤ (begin : Int)))
      ∧ (overlap.size = 0 ∨ (scatter.drop overlap.sourceBegin).take
        overlap.size
          = scatter.filter (inShifted begin (begin + columns) n)) := by
  have hfront : (scatter.head?.any fun front => decide (front < 0))
      = false := by
    cases scatter with
    | nil => rfl
    | cons v rest =>
      have := hnonneg v (.head _)
      simp only [head?_cons, Option.any_some, decide_eq_false_iff_not]
      omega
  have hwindow : ¬ (columns = 0 ∨ n < begin + 1
      ∨ u32Sub n begin < columns ∨ begin + 1 ≠ u32Add begin 1) := by
    rw [u32Sub_eq (by omega) (by omega), u32Add_eq (by omega)]
    omega
  unfold shiftedVisualOverlap
  rw [if_neg (not_not.mpr hsorted), hfront,
    if_neg Bool.false_ne_true, if_neg hwindow]
  by_cases hnone : scatter.isEmpty ∨ n ≤ begin + 1
  · have hempty : scatter.filter (inShifted begin (begin + columns) n)
        = [] := by
      rw [filter_eq_nil_iff]
      intro v hv
      rcases hnone with hnil | hlast
      · rw [List.isEmpty_iff] at hnil
        rw [hnil] at hv
        exact absurd hv not_mem_nil
      · unfold inShifted
        rw [decide_eq_true_eq]
        omega
    rw [if_pos hnone]
    exact ⟨⟨0, []⟩, rfl, by rw [hempty]; rfl, .inl rfl, .inl rfl⟩
  · rw [if_neg hnone]
    rw [not_or] at hnone
    dsimp only
    rw [castInt32_eq (by omega), castInt32_eq (by omega)]
    have htake : (scatter.drop (lowerBound scatter
            ((begin + 1 : Nat) : Int))).take
          (lowerBound (scatter.drop (lowerBound scatter
            ((begin + 1 : Nat) : Int)))
            ((min n (begin + 1 + columns) : Nat) : Int))
        = scatter.filter (inShifted begin (begin + columns) n) := by
      rw [drop_lowerBound hsorted, take_lowerBound (hsorted.filter _),
        filter_filter]
      refine filter_congr fun v _ => ?_
      unfold inShifted
      rw [← Bool.decide_and, decide_eq_decide]
      omega
    refine ⟨_, rfl, ?_, .inr ?_, .inr ?_⟩
    · dsimp only
      rw [htake]
      push_cast
      rfl
    · dsimp only
      unfold lowerBound
      rw [(takeWhile_eq_filter hsorted _).1, countP_eq_length_filter]
      congr 1
      refine filter_congr fun v _ => ?_
      rw [decide_eq_decide]
      omega
    · unfold MtpVisualOverlap.size
      dsimp only
      rw [length_map, length_take, take_eq_take_min,
        Nat.min_assoc, Nat.min_self, ← take_eq_take_min, htake]

/-- The chunks of a division from a column on. -/
def chunkRanges : Nat → List Nat → List (Nat × Nat)
  | _, [] => []
  | begin, columns :: rest =>
    (begin, columns) :: chunkRanges (begin + columns) rest

/-- What the overlaps of a division of `[base, n)` are: one for each chunk;
their source ranges follow one another, from the first visual token after
`base` on; their rows, at their columns, are the visual tokens in
`(base, n)` in order, each a row of its chunk and the token it is
gathered from. -/
structure PartitionsTokens (scatter : List Int) (n base : Nat)
    (columns : List Nat)
    (overlaps : List (MtpAlignmentWindow × MtpVisualOverlap)) : Prop where
  windows : overlaps.map (fun o => (o.1.hiddenBegin, o.1.columns))
    = chunkRanges base columns
  sources : overlaps.flatMap (fun o =>
      List.range' o.2.sourceBegin o.2.size)
    = List.range' (scatter.countP fun v => decide (v ≤ (base : Int)))
        (scatter.countP fun v => decide ((base : Int) < v ∧ v < n))
  covers : overlaps.flatMap (fun o =>
      o.2.destinationColumns.map fun row => row + ((o.1.hiddenBegin : Int) + 1))
    = scatter.filter fun v => decide ((base : Int) < v ∧ v < n)
  rows : ∀ o ∈ overlaps, ∀ row ∈ o.2.destinationColumns,
    0 ≤ row ∧ row < o.1.columns
  gathers : ∀ o ∈ overlaps,
    (scatter.drop o.2.sourceBegin).take o.2.size
      = o.2.destinationColumns.map fun row => row + ((o.1.hiddenBegin : Int) + 1)

include hsorted in
/-- The tokens in `(base, n)` are those of the first chunk and those after
it. -/
theorem filter_split (base columns : Nat) :
    (scatter.filter fun v => decide ((base : Int) < v ∧ v < n))
      = scatter.filter (inShifted base (base + columns) n)
        ++ scatter.filter fun v =>
        decide (((base + columns : Nat) : Int) < v ∧ v < n) := by
  have hparts : scatter
      = scatter.filter (fun v =>
          decide (v < ((base + columns + 1 : Nat) : Int)))
        ++ scatter.filter (fun v =>
          decide (((base + columns + 1 : Nat) : Int) ≤ v)) := by
    rw [← take_lowerBound hsorted, ← drop_lowerBound hsorted, take_append_drop]
  conv_lhs => rw [hparts]
  rw [filter_append, filter_filter, filter_filter]
  congr 1
  · refine filter_congr fun v _ => ?_
    unfold inShifted
    rw [← Bool.decide_and, decide_eq_decide]
    omega
  · refine filter_congr fun v _ => ?_
    rw [← Bool.decide_and, decide_eq_decide]
    omega

/-- Where the tokens after a chunk begin among the indices. -/
theorem countP_split {base columns : Nat} (hfits : base + columns < n) :
    (scatter.countP fun v => decide (v ≤ (base : Int)))
        + scatter.countP (inShifted base (base + columns) n)
      = scatter.countP fun v =>
        decide (v ≤ ((base + columns : Nat) : Int)) := by
  induction scatter with
  | nil => rfl
  | cons v rest ih =>
    simp only [countP_cons, inShifted, decide_eq_true_eq] at ih ⊢
    split_ifs <;> omega

include hsorted hnonneg hn in
/-- Chunk after chunk. -/
theorem chunkOverlaps_spec :
    ∀ (columns : List Nat) (base : Nat), (∀ k ∈ columns, 0 < k) →
      base + columns.sum = n →
      ∃ overlaps, chunkOverlaps scatter n base columns = .ok overlaps
        ∧ PartitionsTokens scatter n base columns overlaps
  | [], base, _, hdivide => by
    have hempty : (scatter.filter fun v =>
        decide ((base : Int) < v ∧ v < n)) = [] := by
      rw [filter_eq_nil_iff]
      intro v _
      rw [sum_nil] at hdivide
      rw [decide_eq_true_eq]
      omega
    refine ⟨[], rfl, rfl, ?_, hempty.symm, fun _ ho => absurd ho not_mem_nil,
      fun _ ho => absurd ho not_mem_nil⟩
    rw [countP_eq_length_filter
      (p := fun v => decide ((base : Int) < v ∧ v < n)), hempty]
    rfl
  | k :: rest, base, hpos, hdivide => by
    have hk := hpos k (.head _)
    rw [sum_cons] at hdivide
    obtain ⟨overlap, hoverlap, hrows, hsource, hgather⟩ :=
      @shiftedVisualOverlap_spec _ hsorted hnonneg _ hn base k hk
        (by omega) (decide (k = n - base))
    obtain ⟨overlaps, hrest, hpart⟩ := chunkOverlaps_spec rest (base + k)
      (fun m hm => hpos m (.tail _ hm)) (by omega)
    have hplan : planMtpAlignmentWindow n base k
        = .ok ⟨base, base, base + 1, k, decide (k = n - base)⟩ := by
      unfold planMtpAlignmentWindow
      rw [if_neg (by omega), if_neg (by omega)]
    have hback : (overlap.destinationColumns.map fun row =>
          row + (((base : Nat) : Int) + 1))
        = scatter.filter (inShifted base (base + k) n) := by
      rw [hrows, map_map]
      refine (map_congr_left fun v _ => ?_).trans (map_id _)
      change v - ((base : Int) + 1) + ((base : Int) + 1) = v
      omega
    have hsize : overlap.size
        = scatter.countP (inShifted base (base + k) n) := by
      unfold MtpVisualOverlap.size
      rw [hrows, length_map, countP_eq_length_filter]
    refine ⟨(⟨base, base, base + 1, k, decide (k = n - base)⟩, overlap)
      :: overlaps, ?_, ?_, ?_, ?_, ?_, ?_⟩
    · rw [chunkOverlaps, hplan]
      dsimp only
      rw [hoverlap]
      dsimp only
      rw [hrest]
      rfl
    · rw [map_cons, hpart.windows]
      rfl
    · have hcount : (scatter.countP fun v =>
            decide ((base : Int) < v ∧ v < n))
          = scatter.countP (inShifted base (base + k) n)
            + scatter.countP fun v =>
                decide (((base + k : Nat) : Int) < v ∧ v < n) := by
        rw [countP_eq_length_filter, filter_split hsorted base k, length_append,
          countP_eq_length_filter, countP_eq_length_filter]
      have hfirst : range' overlap.sourceBegin overlap.size
          = range' (scatter.countP fun v =>
              decide (v ≤ (base : Int))) overlap.size := by
        rcases hsource with hzero | hbegin
        · rw [hzero]
          rfl
        · rw [hbegin]
      rw [flatMap_cons, hpart.sources, hfirst, hsize, hcount]
      rcases lt_or_ge (base + k) n with hlt | hge
      · rw [← countP_split hlt, range'_append_1]
      · have hnone : (scatter.countP fun v =>
            decide (((base + k : Nat) : Int) < v ∧ v < n)) = 0 := by
          rw [countP_eq_zero]
          intro v _
          rw [decide_eq_true_eq]
          omega
        rw [hnone, range'_zero, append_nil, add_zero]
    · rw [flatMap_cons, hpart.covers, filter_split hsorted base k]
      exact congrArg (· ++ _) hback
    · intro o ho row hrow
      rcases mem_cons.mp ho with rfl | ho
      · rw [hrows] at hrow
        obtain ⟨v, hv, rfl⟩ := mem_map.mp hrow
        have hin := of_mem_filter hv
        unfold inShifted at hin
        rw [decide_eq_true_eq] at hin
        dsimp only
        omega
      · exact hpart.rows o ho row hrow
    · intro o ho
      rcases mem_cons.mp ho with rfl | ho
      · refine Eq.trans ?_ hback.symm
        rcases hgather with hzero | hgather
        · have hnone : scatter.filter (inShifted base (base + k) n)
              = [] := by
            rw [← length_eq_zero_iff, ← countP_eq_length_filter, ← hsize, hzero]
          rw [hzero, hnone, take_zero]
        · exact hgather
      · exact hpart.gathers o ho

end

/-- For a prompt whose positions are `int32`, and any division of
`[base, n)` into chunks, the overlaps partition the visual tokens in
`(base, n)`. -/
theorem mtp_overlaps_partition (scatter : List Int)
    (hsorted : scatter.Pairwise (· < ·)) (hnonneg : ∀ v ∈ scatter, 0 ≤ v)
    (n base : Nat) (hn : n < 2 ^ 31) (columns : List Nat)
    (hpos : ∀ k ∈ columns, 0 < k) (hdivide : base + columns.sum = n) :
    ∃ overlaps, chunkOverlaps scatter n base columns = .ok overlaps
      ∧ PartitionsTokens scatter n base columns overlaps :=
  chunkOverlaps_spec hsorted hnonneg hn columns base hpos hdivide

/-- A run of visual tokens over the end of the first of two chunks. -/
theorem mtp_overlaps_partition_straddle :
    ∃ overlaps, chunkOverlaps [2, 3, 4, 5] 8 0 [4, 4] = .ok overlaps
      ∧ PartitionsTokens [2, 3, 4, 5] 8 0 [4, 4] overlaps :=
  mtp_overlaps_partition [2, 3, 4, 5] (by decide) (by decide)
    8 0 (by decide) [4, 4] (by decide) rfl

end Ginfer.Qwen
