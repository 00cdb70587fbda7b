/-
Draft attention attends to exactly its window.

A tile of the context is a stretch of its keys, the last one cut short, and
what a row takes of it is a filter (`context_tile`). The tiles of the
splits, split by split, are all tiles in order (`splits_tiles`), so the
rows of all splits together have filtered the keys of the context once
(`splits_sources`); the last split adds the query keys. What the context
begins with is before every window, and a slot holds the key of the window
it is the slot of (`window_keys`).
-/
import Mathlib.Tactic.Ring
import Ginfer.Lib.Lists
import Ginfer.Lib.PrefixSums
import Ginfer.Lib.Strides
import Ginfer.Ops.SwaAttention

namespace Ginfer.Ops.Swa

open Ginfer.Lib List

-- ============ the plan

/-- What a plan that is made says. -/
structure SwaPlan.Made (plan : SwaPlan) (tokens window : Nat)
    (e : SwaContextExecutionEnvelope) : Prop where
  tokens_eq : plan.tokens = tokens
  tokens_le : 1 ≤ tokens ∧ tokens ≤ 16
  window_eq : plan.window = window
  window_power : window = 2 ^ 11 ∨ window = 2 ^ 12
  maxContext : e.maxContext < 2 ^ 31 → plan.maxContext = e.maxContext
  capacity_pos : 1 ≤ plan.splitCapacity
  capacity_le : plan.splitCapacity ≤ 32
  direct : plan.route = .direct → plan.splitCapacity = 1
  consistent : plan.Consistent

/-- A context that fits an int32 is kept as it is. -/
theorem castInt32_eq {context : Nat} (h : context < 2 ^ 31) :
    castInt32 context = context := by
  unfold castInt32
  exact Int.bmod_eq_of_le (by omega) (by omega)

variable {e : SwaContextExecutionEnvelope}

theorem swaResolvePlan_ok {tokens window : Int} {plan : SwaPlan}
    (h : swaResolvePlan tokens e window = .ok plan) :
    plan.Made tokens.toNat window.toNat e
      ∧ (tokens.toNat : Int) = tokens := by
  unfold swaResolvePlan at h
  obtain ⟨htokens, h⟩ := guard_ok.mp h
  obtain ⟨-, h⟩ := guard_ok.mp h
  obtain ⟨hwindow, h⟩ := guard_ok.mp h
  cases h
  refine ⟨?_, by omega⟩
  have hcapacity : 1 ≤ (if e.maxContext ≤ 96 then 1 else min 32 (max 1
        ((min e.maxContext (window - 1).toNat + keyBlock - 1) / keyBlock)))
      ∧ (if e.maxContext ≤ 96 then 1 else min 32 (max 1
        ((min e.maxContext (window - 1).toNat + keyBlock - 1) / keyBlock)))
          ≤ 32 := by
    split
    · exact ⟨le_refl 1, by decide⟩
    · omega
  have hdirect : (if e.maxContext ≤ 96 then SwaRoute.direct else .splitKv)
      = .direct → (if e.maxContext ≤ 96 then 1 else min 32 (max 1
        ((min e.maxContext (window - 1).toNat + keyBlock - 1) / keyBlock)))
          = 1 := by
    intro h
    split at h
    · next hle => exact if_pos hle
    · cases h
  exact {
    tokens_eq := rfl
    tokens_le := by omega
    window_eq := rfl
    window_power := by omega
    maxContext := fun hlt => by
      dsimp only
      exact castInt32_eq hlt
    capacity_pos := hcapacity.1
    capacity_le := hcapacity.2
    direct := hdirect
    consistent := ⟨rfl, hcapacity.1, hcapacity.2, hdirect⟩ }

-- ============ the splits

section

variable {plan : SwaPlan} {b : BatchRow}

theorem activeSplits_pos (hcapacity : 1 ≤ plan.splitCapacity) :
    0 < activeSplits plan b := by
  unfold activeSplits
  split
  · omega
  · decide

theorem activeSplits_le (hcapacity : 1 ≤ plan.splitCapacity) :
    activeSplits plan b ≤ plan.splitCapacity := by
  unfold activeSplits
  split
  · exact min_le_right _ _
  · exact hcapacity

theorem tileBegin_mono (split : Nat) :
    tileBegin plan b split ≤ tileBegin plan b (split + 1) :=
  Nat.div_le_div_right (Nat.mul_le_mul_left _ (Nat.le_succ split))

/-- The tiles before a split are those of the splits before it. -/
theorem prefixSum_tileCount (n : Nat) :
    prefixSum (contextTileCount plan b) n = tileBegin plan b n := by
  induction n with
  | zero =>
    unfold tileBegin
    rw [mul_zero, Nat.zero_div, prefixSum_zero]
  | succ n ih =>
    have hmono : tileBegin plan b n ≤ tileBegin plan b (n + 1) :=
      tileBegin_mono n
    rw [prefixSum_succ, ih]
    unfold contextTileCount
    omega

/-- The tiles of the splits, split by split, are all tiles in order. -/
theorem splits_tiles (hcapacity : 1 ≤ plan.splitCapacity) :
    ((List.range (activeSplits plan b)).flatMap fun split =>
        (List.range (contextTileCount plan b split)).map
        (tileBegin plan b split + ·))
      = List.range (contextTiles plan b) := by
  have hblocks := blocks_eq_range (contextTileCount plan b) (activeSplits plan b)
  simp only [prefixSum_tileCount] at hblocks
  rw [hblocks]
  unfold tileBegin
  rw [Nat.mul_div_cancel _ (activeSplits_pos hcapacity)]

-- ============ the tiles

/-- The first key of the context that is looked at. -/
def contextStart (plan : SwaPlan) (b : BatchRow) : Nat :=
  b.length.toNat - contextCount plan b

/-- What a query at a position takes of the context, by the offset of the
key. -/
def taken (plan : SwaPlan) (b : BatchRow) (qPosition : Int) (i : Nat) :
    Option Source :=
  if qPosition - ((plan.window - 1 : Nat) : Int)
      ≤ (contextStart plan b + i : Nat) then
    some (.context ((contextStart plan b + i) &&& (plan.window - 1)))
  else none

/-- A row of a token that is valid. -/
structure Live (plan : SwaPlan) (b : BatchRow) (row token : Nat) : Prop where
  row_lt : row < plan.tokens * group
  token_eq : row / group = token
  token_lt : (token : Int) < b.valid

variable {row token split : Nat}

/-- A tile of the context. -/
theorem context_tile (hlength : 0 ≤ b.length) (h : Live plan b row token)
    {iteration : Nat} (hin : iteration < contextTileCount plan b split) :
    ((List.range keyBlock).filterMap fun column =>
        if allowed plan b (tileMetadata plan b split iteration) row column
        then some (stagedFrom plan (tileMetadata plan b split iteration) column)
        else none)
      = ((List.range (min (contextCount plan b
            - (tileBegin plan b split + iteration) * keyBlock) keyBlock)).map
          ((tileBegin plan b split + iteration) * keyBlock + ·)).filterMap
            (taken plan b (b.positions token)) := by
  generalize hk : tileBegin plan b split + iteration = k
  have htile : tileMetadata plan b split iteration
      = ⟨false, contextStart plan b + k * keyBlock,
        min keyBlock (b.length - (contextStart plan b + k * keyBlock : Nat))⟩ := by
    unfold tileMetadata
    rw [if_neg (by omega), ← hk]
    rfl
  rw [htile, filterMap_map, ← filterMap_range_lt (min_le_right _ keyBlock)]
  refine filterMap_congr fun column hcolumn => ?_
  have hcolumn : column < keyBlock := mem_range.mp hcolumn
  have hcount : contextCount plan b ≤ b.length.toNat := min_le_left _ _
  have hvalid : (column : Int) < min (keyBlock : Int)
        (b.length - (contextStart plan b + k * keyBlock : Nat))
      ↔ column < min (contextCount plan b - k * keyBlock) keyBlock := by
    unfold contextStart
    omega
  have hallowed : allowed plan b ⟨false, contextStart plan b + k * keyBlock,
        min keyBlock (b.length - (contextStart plan b + k * keyBlock : Nat))⟩
          row column
      ↔ column < min (contextCount plan b - k * keyBlock) keyBlock
        ∧ b.positions token - ((plan.window - 1 : Nat) : Int)
          ≤ (contextStart plan b + (k * keyBlock + column) : Nat) := by
    unfold allowed
    dsimp only
    rw [if_pos h.row_lt, h.token_eq, hvalid, ← add_assoc]
    constructor
    · rintro ⟨-, hlt, hor⟩
      exact ⟨hlt, hor.resolve_left Bool.false_ne_true⟩
    · rintro ⟨hlt, hmask⟩
      exact ⟨⟨h.row_lt, h.token_lt⟩, hlt, .inr hmask⟩
  unfold Function.comp taken
  by_cases hlt : column < min (contextCount plan b - k * keyBlock) keyBlock
  · rw [if_pos hlt]
    by_cases hmask : b.positions token - ((plan.window - 1 : Nat) : Int)
        ≤ (contextStart plan b + (k * keyBlock + column) : Nat)
    · rw [if_pos (hallowed.mpr ⟨hlt, hmask⟩), if_pos hmask]
      unfold stagedFrom
      rw [if_neg Bool.false_ne_true, add_assoc]
    · rw [if_neg fun hboth => hmask (hallowed.mp hboth).2, if_neg hmask]
  · rw [if_neg fun hboth => hlt (hallowed.mp hboth).1, if_neg hlt]

/-- The tile of the query keys. -/
theorem query_tile (h : Live plan b row token)
    (hvalid : b.valid ≤ (keyBlock : Nat)) {iteration : Nat}
    (hout : contextTileCount plan b split ≤ iteration) :
    ((List.range keyBlock).filterMap fun column =>
        if allowed plan b (tileMetadata plan b split iteration) row column
        then some (stagedFrom plan (tileMetadata plan b split iteration) column)
        else none)
      = (List.range b.valid.toNat).map .query := by
  have htile : tileMetadata plan b split iteration = ⟨true, 0, b.valid⟩ :=
    if_pos hout
  have hpos := h.token_lt
  rw [htile, ← filterMap_eq_map,
    ← filterMap_range_lt (show b.valid.toNat ≤ keyBlock by omega)]
  refine filterMap_congr fun column hcolumn => ?_
  have hallowed : allowed plan b ⟨true, 0, b.valid⟩ row column
      ↔ column < b.valid.toNat := by
    unfold allowed
    dsimp only
    constructor
    · rintro ⟨-, hlt, -⟩
      omega
    · intro hlt
      exact ⟨⟨h.row_lt, by rw [h.token_eq]; exact h.token_lt⟩, by omega,
        .inl rfl⟩
  by_cases hlt : column < b.valid.toNat
  · rw [if_pos (hallowed.mpr hlt), if_pos hlt]
    rfl
  · rw [if_neg fun hboth => hlt (hallowed.mp hboth), if_neg hlt]

-- ============ the rows

/-- The keys of a tile, by their offset in the context. -/
def tileKeys (plan : SwaPlan) (b : BatchRow) (k : Nat) : List Nat :=
  (List.range (min (contextCount plan b - k * keyBlock) keyBlock)).map
    (k * keyBlock + ·)

/-- What a split combines a row with: of its tiles what the query takes,
and behind them the query keys, if they are its own. -/
theorem rowSources_eq (hlength : 0 ≤ b.length) (h : Live plan b row token)
    (hvalid : b.valid ≤ (keyBlock : Nat)) :
    rowSources plan b split row
      = ((List.range (contextTileCount plan b split)).flatMap fun iteration =>
        (tileKeys plan b (tileBegin plan b split + iteration)).filterMap
          (taken plan b (b.positions token)))
        ++ if ownsQuery plan b split then
        (List.range b.valid.toNat).map .query else [] := by
  have hcontext : ((range (contextTileCount plan b split)).flatMap
        fun iteration =>
          let tile := tileMetadata plan b split iteration
          (range keyBlock).filterMap fun column =>
            if allowed plan b tile row column then
              some (stagedFrom plan tile column)
            else none)
      = (range (contextTileCount plan b split)).flatMap fun iteration =>
          (tileKeys plan b (tileBegin plan b split + iteration)).filterMap
            (taken plan b (b.positions token)) :=
    flatMap_congr fun iteration hin =>
      context_tile hlength h (mem_range.mp hin)
  unfold rowSources iterations
  by_cases howns : ownsQuery plan b split
  · rw [if_pos howns, if_pos howns, range_succ, flatMap_append,
      hcontext, flatMap_singleton]
    exact congrArg _ (query_tile h hvalid (le_refl _))
  · rw [if_neg howns, if_neg howns, add_zero, hcontext, append_nil]

/-- What the active splits combine a row with: of the whole context what
the query takes, and the query keys. -/
theorem splits_sources (hlength : 0 ≤ b.length) (h : Live plan b row token)
    (hvalid : b.valid ≤ (keyBlock : Nat))
    (hcapacity : 1 ≤ plan.splitCapacity) :
    (List.range (activeSplits plan b)).flatMap
        (fun split => rowSources plan b split row)
      = (List.range (contextCount plan b)).filterMap
        (taken plan b (b.positions token))
        ++ (List.range b.valid.toNat).map .query := by
  have hpos := activeSplits_pos (b := b) hcapacity
  -- the query keys come last
  have hquery : (range (activeSplits plan b)).flatMap
        (fun split => rowSources plan b split row)
      = (range (activeSplits plan b)).flatMap (fun split =>
          (range (contextTileCount plan b split)).flatMap fun iteration =>
            (tileKeys plan b (tileBegin plan b split + iteration)).filterMap
              (taken plan b (b.positions token)))
        ++ (range b.valid.toNat).map .query := by
    obtain ⟨last, hlast⟩ := Nat.exists_eq_succ_of_ne_zero (ne_of_gt hpos)
    have hbefore : ∀ split ∈ range last,
        rowSources plan b split row
          = (range (contextTileCount plan b split)).flatMap
            fun iteration =>
              (tileKeys plan b (tileBegin plan b split + iteration)).filterMap
                (taken plan b (b.positions token)) := by
      intro split hsplit
      have hsplit := mem_range.mp hsplit
      rw [rowSources_eq hlength h hvalid, if_neg, append_nil]
      unfold ownsQuery
      omega
    rw [hlast, range_succ, flatMap_append, flatMap_append,
      flatMap_congr hbefore, flatMap_singleton,
      flatMap_singleton, rowSources_eq hlength h hvalid, if_pos,
      append_assoc]
    unfold ownsQuery
    omega
  -- the tiles are all the keys
  have htiles : (range (contextTiles plan b)).flatMap (tileKeys plan b)
      = range (contextCount plan b) :=
    tiles_eq_range (contextCount plan b) (by decide : 0 < keyBlock)
  have hcontext : (range (activeSplits plan b)).flatMap (fun split =>
        (range (contextTileCount plan b split)).flatMap fun iteration =>
          (tileKeys plan b (tileBegin plan b split + iteration)).filterMap
            (taken plan b (b.positions token)))
      = (range (contextCount plan b)).filterMap
          (taken plan b (b.positions token)) := by
    rw [← htiles, ← splits_tiles hcapacity, filterMap_flatMap, flatMap_assoc]
    refine flatMap_congr fun split _ => ?_
    rw [flatMap_map]
  rw [hquery, hcontext]

end

-- ============ the window

/-- The key an element holds. -/
def fetch {K : Type} (cache queryKey : Nat → K) : Source → K
  | .context slot => cache slot
  | .query column => queryKey column

/-- The keys of the context from the window of a query on. -/
def windowKeys (length window : Nat) (qPosition : Int) : List Nat :=
  (List.range length).filter fun p =>
    qPosition - ((window - 1 : Nat) : Int) ≤ (p : Nat)

/-- What a query takes of the context are the keys of its window, from the
slots that hold them. -/
theorem window_keys {K : Type} {plan : SwaPlan} {b : BatchRow} {token : Nat}
    (hpower : plan.window = 2 ^ 11 ∨ plan.window = 2 ^ 12)
    (hlength : 0 ≤ b.length) (hposition : b.positions token = b.length + token)
    (cache key queryKey : Nat → K)
    (hcache : ∀ p, p < b.length.toNat → b.length.toNat ≤ p + plan.window →
      cache (p % plan.window) = key p) :
    ((List.range (contextCount plan b)).filterMap
        (taken plan b (b.positions token))).map (fetch cache queryKey)
      = (windowKeys b.length.toNat plan.window (b.positions token)).map
        key := by
  have hwindow : 1 ≤ plan.window := by omega
  have hcount : contextCount plan b = min b.length.toNat (plan.window - 1) := rfl
  have hstart : contextStart plan b = b.length.toNat - contextCount plan b := rfl
  have hall : b.length.toNat
      = contextStart plan b + contextCount plan b := by omega
  unfold windowKeys
  -- what is before the start is before the window
  have hbefore : (range (contextStart plan b)).filter (fun p =>
      b.positions token - ((plan.window - 1 : Nat) : Int) ≤ (p : Nat))
        = [] := by
    rw [filter_eq_nil_iff]
    intro p hp
    have hp := mem_range.mp hp
    rw [decide_eq_true_iff]
    omega
  conv_rhs =>
    rw [hall, range_add, filter_append, hbefore, nil_append]
  rw [map_filterMap, filter_map, map_map,
    ← filterMap_eq_filter, ← filterMap_eq_map,
    filterMap_filterMap]
  refine filterMap_congr fun i hi => ?_
  have hi := mem_range.mp hi
  unfold taken
  by_cases hmask : b.positions token - ((plan.window - 1 : Nat) : Int)
      ≤ (contextStart plan b + i : Nat)
  · have hslot : (contextStart plan b + i) &&& (plan.window - 1)
        = (contextStart plan b + i) % plan.window := by
      rcases hpower with h | h
      · rw [h]
        exact Nat.and_two_pow_sub_one_eq_mod _ 11
      · rw [h]
        exact Nat.and_two_pow_sub_one_eq_mod _ 12
    have hkey := hcache (contextStart plan b + i) (by omega) (by omega)
    rw [if_pos hmask, hslot]
    simp only [Option.map_some, fetch, hkey, Function.comp, hmask,
      Option.guard, decide_true, if_true, Option.bind_some]
  · rw [if_neg hmask]
    simp only [Option.map_none, Function.comp, hmask, Option.guard,
      decide_false, Bool.false_eq_true, if_false, Option.bind_none]

-- ============ the launch

/-- What a launch is promised of a row of its batch: valid columns, a
context of the envelope, and positions that follow each other. -/
structure BatchRow.Admissible (b : BatchRow) (tokens : Nat)
    (e : SwaContextExecutionEnvelope) : Prop where
  valid_pos : 1 ≤ b.valid
  valid_le : b.valid ≤ tokens
  length_ge : (e.minContext : Int) ≤ b.length
  length_le : b.length ≤ e.maxContext
  positions_eq : ∀ t : Nat, t < b.valid → b.positions t = b.length + t

section

variable {plan : SwaPlan} {b : BatchRow} {tokens window : Nat}
  {e : SwaContextExecutionEnvelope}

variable (hmade : plan.Made tokens window e) (hfits : e.maxContext < 2 ^ 31)
  (hb : b.Admissible tokens e)

include hmade hfits hb

/-- The blocks that do not return are those of the active splits. -/
theorem partialBody_eq (split row : Nat) : partialBody plan b split row
      = if split < activeSplits plan b then some (rowSources plan b split row)
        else none := by
  have hcontext := hmade.maxContext hfits
  have hactive := activeSplits_le (b := b) hmade.capacity_pos
  have hwindow : ¬(plan.window ≠ 2048 ∧ plan.window ≠ 4096) := by
    rw [hmade.window_eq]
    rintro ⟨h, h'⟩
    exact hmade.window_power.elim h h'
  unfold partialBody
  rw [if_neg hwindow]
  by_cases hsplit : split < activeSplits plan b
  · have hruns : ¬(plan.splitCapacity ≤ split ∨ b.length < 0
        ∨ plan.maxContext < b.length ∨ b.valid < 1
        ∨ plan.tokens < b.valid) := by
      have := hb.valid_pos
      have := hb.valid_le
      have := hmade.tokens_eq
      have := hb.length_ge
      have := hb.length_le
      omega
    rw [if_neg hruns, if_neg (Nat.not_le.mpr hsplit), if_pos hsplit]
  · rw [if_neg hsplit, if_pos (Nat.not_lt.mp hsplit), ite_self]

/-- The blocks that store a row are those the reduction reads. -/
theorem writtenSplits_eq (row : Nat) :
    writtenSplits plan b row = List.range (activeSplits plan b) := by
  have hactive := activeSplits_le (b := b) hmade.capacity_pos
  unfold writtenSplits
  rw [← filterMap_eq_filter]
  conv_rhs => rw [← filterMap_some (l := range _)]
  rw [← filterMap_range_lt hactive]
  refine filterMap_congr fun split _ => ?_
  have hblock := partialBody_eq hmade hfits hb split row
  by_cases hsplit : split < activeSplits plan b
  · rw [if_pos hsplit] at hblock ⊢
    exact if_pos (congrArg Option.isSome hblock)
  · rw [if_neg hsplit] at hblock ⊢
    exact if_neg (Bool.not_eq_true _ ▸ congrArg Option.isSome hblock)

theorem reducedSplits_eq {token : Nat} (htoken : (token : Int) < b.valid) :
    reducedSplits plan b token
      = some (List.range (activeSplits plan b)) := by
  have hcontext := hmade.maxContext hfits
  have := hb.length_ge
  have := hb.length_le
  exact if_neg (by omega)

/-- On either route a query is combined with what the active splits have. -/
theorem attended_eq
    {token : Nat} (htoken : (token : Int) < b.valid) (qLocal : Nat) :
    attended plan b token qLocal
      = some ((List.range (activeSplits plan b)).flatMap fun split =>
        rowSources plan b split (token * group + qLocal)) := by
  have hactive := activeSplits_le (b := b) hmade.capacity_pos
  have hpos := activeSplits_pos (b := b) hmade.capacity_pos
  unfold attended
  dsimp only
  cases hroute : plan.route with
  | direct =>
    have hone : activeSplits plan b = 1 := by
      have := hmade.direct hroute
      omega
    rw [partialBody_eq hmade hfits hb, hone, if_pos Nat.zero_lt_one,
      range_one, flatMap_singleton]
  | splitKv =>
    have hparts : (range (activeSplits plan b)).mapM (fun split =>
          partialBody plan b split (token * group + qLocal))
        = some ((range (activeSplits plan b)).map fun split =>
          rowSources plan b split (token * group + qLocal)) := by
      refine mapM_pure fun split hsplit => ?_
      rw [partialBody_eq hmade hfits hb, if_pos (mem_range.mp hsplit)]
      rfl
    rw [reducedSplits_eq hmade hfits hb htoken]
    show (do
      let parts ← (range (activeSplits plan b)).mapM fun split =>
        partialBody plan b split (token * group + qLocal)
      return parts.flatten) = _
    rw [hparts]
    rfl

omit hmade hfits hb

/-- Two partial results never share a place. -/
theorem statIndex_inj {batch batch' qHead qHead' token token' split split' : Nat}
    (hq : qHead < qHeads) (hq' : qHead' < qHeads)
    (ht : token < plan.tokens) (ht' : token' < plan.tokens)
    (hs : split < plan.splitCapacity) (hs' : split' < plan.splitCapacity)
    (h : statIndex plan batch qHead token split
      = statIndex plan batch' qHead' token' split') :
    batch = batch' ∧ qHead = qHead' ∧ token = token' ∧ split = split' := by
  have hflat : ∀ batch qHead token split, statIndex plan batch qHead token split
      = ((batch * plan.splitCapacity + split) * plan.tokens + token) * qHeads
        + qHead := by
    intro batch qHead token split
    unfold statIndex
    ring
  rw [hflat, hflat] at h
  obtain ⟨h, hqHead⟩ := digits_inj hq hq' h
  obtain ⟨h, htoken⟩ := digits_inj ht ht' h
  obtain ⟨hbatch, hsplit⟩ := digits_inj hs hs' h
  exact ⟨hbatch, hqHead, htoken, hsplit⟩

end

theorem swaResolvePlan_total {tokens window : Nat}
    (htokens : 1 ≤ tokens ∧ tokens ≤ 16)
    (hwindow : window = 2048 ∨ window = 4096)
    (he : e.minContext ≤ e.maxContext) :
    ∃ plan, swaResolvePlan tokens e window = .ok plan
      ∧ plan.Made tokens window e := by
  have hmade : ∃ plan, swaResolvePlan tokens e window = .ok plan := by
    unfold swaResolvePlan
    rw [if_neg (by omega), if_neg (by omega), if_neg (by omega)]
    exact ⟨_, rfl⟩
  obtain ⟨plan, hplan⟩ := hmade
  exact ⟨plan, hplan, (swaResolvePlan_ok hplan).1⟩

/-- Under the plan of a launch the splits that are stored are those that are
read, no more than there is room and weights for, each at a place of its
own; and a valid query is combined with the keys of its window, in order,
each from its slot, and behind them with the valid query keys. -/
theorem swa_attends_window {tokens window : Nat}
    {e : SwaContextExecutionEnvelope} (htokens : 1 ≤ tokens ∧ tokens ≤ 16)
    (hwindow : window = 2048 ∨ window = 4096)
    (he : e.minContext ≤ e.maxContext) (hfits : e.maxContext < 2 ^ 31) :
    ∃ plan, swaResolvePlan tokens e window = .ok plan
      ∧ plan.Consistent ∧ plan.splitCapacity ≤ maxSplits
      ∧ (∀ batch batch' qHead qHead' token token' split split',
        qHead < qHeads → qHead' < qHeads → token < tokens → token' < tokens
        → split < plan.splitCapacity → split' < plan.splitCapacity
        → statIndex plan batch qHead token split
          = statIndex plan batch' qHead' token' split'
        → batch = batch' ∧ qHead = qHead' ∧ token = token' ∧ split = split')
      ∧ ∀ b : BatchRow, b.Admissible tokens e →
        activeSplits plan b ≤ plan.splitCapacity
        ∧ ∀ token qHead : Nat, (token : Int) < b.valid → qHead < qHeads →
          let row := token * group + qHead % group
          let keys := windowKeys b.length.toNat window (b.positions token)
          rowToQt row (qHead / group) = (qHead, token)
          ∧ writtenSplits plan b row = List.range (activeSplits plan b)
          ∧ reducedSplits plan b token = some (writtenSplits plan b row)
          ∧ ∃ sources, attended plan b token (qHead % group) = some sources
            ∧ sources = keys.map (fun p => .context (p % window))
              ++ (List.range b.valid.toNat).map .query
            ∧ ∀ (K : Type) (cache key queryKey : Nat → K),
              (∀ p, p < b.length.toNat → b.length.toNat ≤ p + window →
                cache (p % window) = key p) →
              sources.map (fetch cache queryKey)
                = keys.map key ++ (List.range b.valid.toNat).map queryKey := by
  obtain ⟨plan, hplan, hmade⟩ := swaResolvePlan_total htokens hwindow he
  have hmax : plan.splitCapacity ≤ maxSplits :=
    Nat.le_trans hmade.capacity_le (by decide)
  refine ⟨plan, hplan, hmade.consistent, hmax, ?_, ?_⟩
  · intro batch batch' qHead qHead' token token' split split' hq hq' ht ht'
    rw [← hmade.tokens_eq] at ht ht'
    exact statIndex_inj hq hq' ht ht'
  intro b hb
  refine ⟨activeSplits_le hmade.capacity_pos, ?_⟩
  intro token qHead htoken hq
  have hvalid : b.valid ≤ tokens := hb.valid_le
  have htok : token < tokens := by omega
  have hlocal : qHead % group < group := Nat.mod_lt qHead (by decide)
  have hrow : (token * group + qHead % group) / group = token := by
    unfold group at *
    omega
  have hlive : Live plan b (token * group + qHead % group) token := {
    row_lt := by
      rw [hmade.tokens_eq]
      exact digits_lt htok hlocal
    token_eq := hrow
    token_lt := htoken }
  have hlength : 0 ≤ b.length := by
    have := hb.length_ge
    omega
  have hblock : b.valid ≤ (keyBlock : Nat) := by
    unfold keyBlock
    omega
  have hpower : plan.window = 2 ^ 11 ∨ plan.window = 2 ^ 12 := by
    rw [hmade.window_eq]
    exact hmade.window_power
  have hposition := hb.positions_eq token htoken
  have hqt : rowToQt (token * group + qHead % group) (qHead / group)
      = (qHead, token) := by
    unfold rowToQt
    dsimp only
    rw [hrow, Nat.add_sub_cancel_left, Nat.div_add_mod']
  have hwritten := writtenSplits_eq hmade hfits hb (token * group + qHead % group)
  refine ⟨hqt, hwritten, ?_, _, attended_eq hmade hfits hb htoken _, ?_, ?_⟩
  · rw [hwritten]
    exact reducedSplits_eq hmade hfits hb htoken
  · rw [splits_sources hlength hlive hblock hmade.capacity_pos]
    have hslots := window_keys hpower hlength hposition Source.context
      (fun p => .context (p % plan.window)) .query fun _ _ _ => rfl
    have hself : fetch Source.context Source.query = id :=
      funext fun s => by cases s <;> rfl
    rw [hself, map_id, hmade.window_eq] at hslots
    rw [hslots]
  · intro K cache key queryKey hcache
    rw [splits_sources hlength hlive hblock hmade.capacity_pos, map_append]
    have hkeys := window_keys hpower hlength hposition cache key queryKey
      (by rwa [hmade.window_eq])
    rw [hmade.window_eq] at hkeys
    rw [hkeys, map_map]
    rfl

/-- Three valid columns behind 5000 keys, with a window of 2048. -/
theorem swa_attends_window_split :
    ∃ plan, swaResolvePlan (4 : Nat) ⟨0, 100000⟩ (2048 : Nat) = .ok plan
      ∧ ∃ sources, attended plan ⟨fun t => 5000 + t, 3⟩ 2 1 = some sources
        ∧ sources.map (fetch (fun slot => 4999 - (4999 - slot) % 2048) (5000 + ·))
          = (windowKeys 5000 2048 5002).map id
            ++ (List.range 3).map (5000 + ·) := by
  obtain ⟨plan, hplan, -, -, -, hrow⟩ := swa_attends_window
    (by decide : 1 ≤ 4 ∧ 4 ≤ 16) (Or.inl (rfl : 2048 = 2048))
    (e := ⟨0, 100000⟩) (by decide) (by decide)
  have hb : (⟨fun t => 5000 + t, 3⟩ : BatchRow).Admissible 4 ⟨0, 100000⟩ := {
    valid_pos := by decide
    valid_le := by decide
    length_ge := by decide
    length_le := by decide
    positions_eq := fun t _ => rfl }
  obtain ⟨-, hrow⟩ := hrow _ hb
  obtain ⟨-, -, -, sources, hsources, -, hkeys⟩ :=
    hrow 2 1 (by decide) (by decide)
  refine ⟨plan, hplan, sources, hsources, ?_⟩
  refine hkeys Nat (fun slot => 4999 - (4999 - slot) % 2048) id (5000 + ·) ?_
  intro p hlt hge
  have hlt : p < 5000 := hlt
  have hge : 5000 ≤ p + 2048 := hge
  show 4999 - (4999 - p % 2048) % 2048 = p
  omega

end Ginfer.Ops.Swa
