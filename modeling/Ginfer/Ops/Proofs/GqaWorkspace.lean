/-
The planned workspace of GQA attention suffices.

The capacity of an envelope is the largest count of its windows
(`launchCapacity_max`), so an envelope within another has at most its
capacity, and a chunk of a call at most the bytes of the planned chunk of
as many columns (`chunk_le`). A call goes no other way than its width does
in the plan, but for the prompt kernels, which need nothing
(`route_cases`).
-/
import Ginfer.Layout.Proofs.Room
import Ginfer.Ops.GqaWorkspace
import Ginfer.Ops.Proofs.GqaDecodePages

namespace Ginfer.Ops

open Ginfer.Lib List
open Ginfer.Layout

-- ============ the splits

section

variable {qHeads tokens : Int} {cacheDtype : DType} {o : OccupancyPolicy}
  {e e' : GqaExecutionEnvelope}

/-- The capacity of a geometry that is registered. -/
theorem splitCapacity_ok {splits : Nat}
    (h : gqaAttentionSplitCapacity qHeads tokens cacheDtype e o = .ok splits) :
    ∃ g dtype, GqaGeometry.qHeads g = qHeads ∧ kvDType cacheDtype = some dtype
      ∧ e.minVisibleKeys ≤ e.maxVisibleKeys
      ∧ splits = gqaSmallTLaunchCapacity g e tokens.toNat dtype o := by
  unfold gqaAttentionSplitCapacity at h
  cases hdtype : kvDType cacheDtype with
  | none =>
    rw [hdtype] at h
    cases h
  | some dtype =>
    rw [hdtype] at h
    dsimp only at h
    rw [guard_ok] at h
    obtain ⟨hvalid, h⟩ := h
    have hle : e.minVisibleKeys ≤ e.maxVisibleKeys := by omega
    split at h
    · next hq => exact ⟨.gqa27, dtype, hq.symm, rfl, hle, (Except.ok.inj h).symm⟩
    · split at h
      · next hq => exact ⟨.gqa35, dtype, hq.symm, rfl, hle,
          (Except.ok.inj h).symm⟩
      · split at h
        · next hq => exact ⟨.gqaMuse, dtype, hq.symm, rfl, hle,
            (Except.ok.inj h).symm⟩
        · cases h

theorem qHeads_inj {g g' : GqaGeometry} (h : g.qHeads = g'.qHeads) :
    g = g' := by
  cases g <;> cases g' <;> first | rfl | exact absurd h (by decide)

/-- An envelope within another has at most its capacity. -/
theorem splitCapacity_le {splits splits' : Nat}
    (h : gqaAttentionSplitCapacity qHeads tokens cacheDtype e o = .ok splits)
    (h' : gqaAttentionSplitCapacity qHeads tokens cacheDtype e' o = .ok splits')
    (hmin : e.minVisibleKeys ≤ e'.minVisibleKeys)
    (hmax : e'.maxVisibleKeys ≤ e.maxVisibleKeys) : splits' ≤ splits := by
  obtain ⟨g, dtype, hg, hdtype, -, rfl⟩ := splitCapacity_ok h
  obtain ⟨g', dtype', hg', hdtype', hle, rfl⟩ := splitCapacity_ok h'
  obtain rfl := qHeads_inj (hg.trans hg'.symm)
  obtain rfl := Option.some.inj (hdtype.symm.trans hdtype')
  exact launchCapacity_mono g tokens.toNat dtype o hle hmin hmax

end

-- ============ the chunks

/-- The partial results of a chunk. -/
def partials (headDim qHeads tokens splits : Int) : List (DType × List Int) :=
  [(.bf16, [headDim, qHeads, tokens, splits]),
    (.fp32, [qHeads, tokens, splits]), (.fp32, [qHeads, tokens, splits])]

/-- More splits need no less. -/
theorem partials_mono {headDim qHeads tokens splits splits' : Int}
    (h : splits' ≤ splits) :
    reserved 0 (partials headDim qHeads tokens splits')
      ≤ reserved 0 (partials headDim qHeads tokens splits) := by
  have hnat : splits'.toNat * 1 ≤ splits.toNat * 1 := by omega
  have hplane := Nat.mul_le_mul_left qHeads.toNat
    (Nat.mul_le_mul_left tokens.toNat hnat)
  refine reserved_mono (.cons ?_ (.cons ?_ (.cons ?_ .nil))) (le_refl 0)
  · exact Nat.mul_le_mul_right 2 (Nat.mul_le_mul_left headDim.toNat hplane)
  · exact Nat.mul_le_mul_right 4 hplane
  · exact Nat.mul_le_mul_right 4 hplane

section

variable {qHeads headDim batch count : Int} {cacheDtype : DType}
  {e : GqaExecutionEnvelope} {o : OccupancyPolicy}

/-- What is planned for a chunk. -/
theorem chunkCapacity_ok {bytes : Nat}
    (h : chunkCapacity qHeads cacheDtype e o headDim batch count = .ok bytes) :
    ∃ splits : Nat,
      gqaAttentionSplitCapacity qHeads count cacheDtype e o = .ok splits
        ∧ bytes = reserved 0 (partials headDim qHeads count
        (splits * batch)) := by
  obtain ⟨splits, hsplits, h⟩ := bind_ok.mp h
  obtain ⟨layout, hlayout, h⟩ := bind_ok.mp h
  refine ⟨splits, hsplits, ?_⟩
  obtain ⟨hpeak, hword⟩ := allocations_dry
    (partials headDim qHeads count (splits * batch)) (d := {})
    (show 0 < 2 ^ 64 by decide) (le_refl 0) (show 0 < 2 ^ 64 by decide)
    hlayout
  obtain ⟨hbytes, -⟩ := alignUp_ok (k := 0) hword h
  have hunit : roundUp layout.builder.peak 0 = layout.builder.peak := by
    unfold roundUp
    omega
  rw [hbytes, hunit, hpeak]
  exact Nat.max_eq_right (Nat.zero_le _)

/-- A chunk of a call needs at most what is planned for as many columns. -/
theorem chunk_le {c : GqaAttentionCall} {batch' : Int} {bytes : Nat}
    {calls : List WorkspaceCall} (hq : c.qHeads = qHeads)
    (hdtype : c.cacheDtype = cacheDtype)
    (hmin : e.minVisibleKeys ≤ c.envelope.minVisibleKeys)
    (hmax : c.envelope.maxVisibleKeys ≤ e.maxVisibleKeys)
    (hpos : 0 ≤ batch') (hbatch : batch' ≤ batch)
    (hplan : chunkCapacity qHeads cacheDtype e o headDim batch count = .ok bytes)
    (h : c.chunkCalls o headDim batch' count = .ok calls) :
    ∃ tensors, tensors ≠ [] ∧ calls = allocations tensors
      ∧ reserved 0 tensors ≤ bytes := by
  subst hq hdtype
  obtain ⟨splits, hsplits, rfl⟩ := chunkCapacity_ok hplan
  obtain ⟨splits', hsplits', h⟩ := bind_ok.mp h
  cases h
  have hle := splitCapacity_le hsplits hsplits' hmin hmax
  refine ⟨partials headDim c.qHeads count (splits' * batch'), nofun, rfl,
    partials_mono ?_⟩
  calc (splits' : Int) * batch'
      ≤ splits * batch' := Int.mul_le_mul_of_nonneg_right (by omega) hpos
    _ ≤ splits * batch := Int.mul_le_mul_of_nonneg_left hbatch (by omega)

end

-- ============ the maximums

/-- The largest capacity bounds each. -/
theorem maximumOf_ok {capacity : Int → Except Exception Nat}
    (widths : List Int) : ∀ {maximum bytes : Nat},
      maximumOf capacity maximum widths = .ok bytes → maximum ≤ bytes
        ∧ ∀ w ∈ widths, ∃ c, capacity w = .ok c ∧ c ≤ bytes := by
  induction widths with
  | nil =>
    intro maximum bytes h
    cases h
    exact ⟨le_refl _, nofun⟩
  | cons width rest ih =>
    intro maximum bytes h
    unfold maximumOf at h
    rw [foldlM_cons] at h
    obtain ⟨next, hnext, h⟩ := bind_ok.mp h
    obtain ⟨c, hc, rfl⟩ := map_ok.mp hnext
    obtain ⟨hle, hrest⟩ := ih h
    refine ⟨by omega, ?_⟩
    intro w hw
    rcases mem_cons.mp hw with rfl | hw
    · exact ⟨c, hc, by omega⟩
    · exact hrest w hw

-- ============ the calls

section

variable {c : GqaAttentionCall} {o : OccupancyPolicy}
  {headDim batch : Int} {calls : List WorkspaceCall} {r : ArenaRun}
  {limit bytes : Nat}

/-- A chunk in a scope, where there is room behind the padding. -/
theorem chunk_fits {tensors : List (DType × List Int)}
    (hne : tensors ≠ []) (hbytes : reserved 0 tensors ≤ bytes)
    (hbacked : Backed r.arena.base r.arena.cap 256)
    (hroom : roundUp r.arena.off 8 + bytes ≤ limit)
    (hcap : limit ≤ r.arena.cap) :
    Fits limit (Keeps r r.arena.off) r
      (.enter :: allocations tensors ++ [.leave]) := by
  have hround := le_roundUp r.arena.off 8
  have hreserved := reserved_padded hne r.arena.off
  refine scope_fits (by omega) ?_
  refine (allocations_fit tensors r.entered hbacked ?_
    hcap).mono fun r' _ hkeeps => ⟨_, ?_, hkeeps⟩
  · show reserved r.arena.off tensors ≤ limit
    omega
  · show r.arena.off ≤ reserved r.arena.off tensors
    omega

/-- The chunks of a loop, each in its scope. -/
theorem chunks_fit {chunks : List (List WorkspaceCall)}
    (hall : ∀ calls ∈ chunks, ∃ tensors, tensors ≠ []
      ∧ calls = .enter :: allocations tensors ++ [.leave]
      ∧ reserved 0 tensors ≤ bytes) : ∀ r : ArenaRun,
    Backed r.arena.base r.arena.cap 256 →
      roundUp r.arena.off 8 + bytes ≤ limit → limit ≤ r.arena.cap →
        Fits limit (Keeps r r.arena.off) r chunks.flatten := by
  induction chunks with
  | nil =>
    intro r _ hroom _
    have := le_roundUp r.arena.off 8
    exact ⟨by omega, rfl, rfl, rfl, rfl⟩
  | cons first rest ih =>
    intro r hbacked hroom hcap
    obtain ⟨tensors, hne, rfl, hbytes⟩ := hall first (.head _)
    rw [flatten_cons]
    refine Fits.append ((chunk_fits hne hbytes hbacked hroom hcap).mono ?_)
    rintro r' - ⟨hbase, hcap', hscopes, hoffset⟩
    have hrest := ih (fun calls h => hall calls (.tail _ h))
      r' (by rw [hbase, hcap']; exact hbacked) (by rw [hoffset]; exact hroom)
      (by rw [hcap']; exact hcap)
    exact hrest.mono fun r'' _ h => ⟨h.base.trans hbase,
      h.cap.trans hcap', h.scopes.trans hscopes, h.offset.trans hoffset⟩

/-- The results of a loop over chunks. -/
theorem mapM_ok {α β : Type} {f : α → Except Exception β} {xs : List α} :
    ∀ {ys : List β}, xs.mapM f = .ok ys → ∀ y ∈ ys, ∃ x ∈ xs, f x = .ok y := by
  induction xs with
  | nil =>
    intro ys h
    rw [mapM_nil] at h
    cases h
    exact nofun
  | cons x rest ih =>
    intro ys h
    rw [mapM_cons] at h
    obtain ⟨z, hz, h⟩ := bind_ok.mp h
    obtain ⟨zs, hzs, h⟩ := bind_ok.mp h
    cases h
    intro y hy
    rcases mem_cons.mp hy with rfl | hy
    · exact ⟨x, .head _, hz⟩
    · obtain ⟨w, hw, heq⟩ := ih hzs y hy
      exact ⟨w, .tail _ hw, heq⟩

end

-- ============ the routes

section

variable {qHeads width batch batch' : Int} {e e' : GqaExecutionEnvelope}

/-- The width is cut into chunks where it does not fit in one. -/
def Chunked (qHeads width batch : Int) (e : GqaExecutionEnvelope) : Prop :=
  1 < batch ∨ qHeads = 16 ∧ width ≤ maximumVerifyTokens
    ∧ (if width ≤ 2 * smallTChunkTokens then 512 else 1024) < e.maxVisibleKeys

/-- The route of a width that does not fit in a chunk. -/
theorem route_wide (qHeads batch : Int) (e : GqaExecutionEnvelope)
    (hwide : ¬ (1 ≤ width ∧ width ≤ smallTChunkTokens)) :
    (Chunked qHeads width batch e
        ∧ gqaAttentionResolveRoute qHeads width batch e = .chunkedSmallT)
      ∨ (¬ Chunked qHeads width batch e
        ∧ gqaAttentionResolveRoute qHeads width batch e = .prompt) := by
  unfold gqaAttentionResolveRoute
  rw [if_neg hwide]
  by_cases hbatch : 1 < batch
  · exact .inl ⟨.inl hbatch, if_pos hbatch⟩
  · rw [if_neg hbatch]
    by_cases hlong : qHeads = 16 ∧ width ≤ maximumVerifyTokens
        ∧ (if width ≤ 2 * smallTChunkTokens then 512 else 1024) < e.maxVisibleKeys
    · exact .inl ⟨.inr hlong, if_pos hlong⟩
    · exact .inr ⟨fun h => h.elim hbatch hlong, if_neg hlong⟩

/-- A call goes the way its width does in the plan, or needs nothing. -/
theorem route_cases (qHeads width : Int) (hbatch : batch' ≤ batch)
    (hmax : e'.maxVisibleKeys ≤ e.maxVisibleKeys) :
    gqaAttentionResolveRoute qHeads width batch' e' = .prompt
      ∨ gqaAttentionResolveRoute qHeads width batch' e'
        = gqaAttentionResolveRoute qHeads width batch e := by
  by_cases hwide : 1 ≤ width ∧ width ≤ smallTChunkTokens
  · refine .inr ?_
    unfold gqaAttentionResolveRoute
    rw [if_pos hwide, if_pos hwide]
  · rcases route_wide qHeads batch' e' hwide with
      ⟨hchunked, hroute⟩ | ⟨-, hroute⟩
    · have hplanned : Chunked qHeads width batch e := by
        rcases hchunked with h | ⟨hq, hwidth, hlong⟩
        · exact .inl (by omega)
        · exact .inr ⟨hq, hwidth, lt_of_lt_of_le hlong hmax⟩
      rcases route_wide qHeads batch e hwide with
        ⟨-, h⟩ | ⟨hnot, -⟩
      · exact .inr (hroute.trans h.symm)
      · exact absurd hplanned hnot
    · exact .inl hroute

/-- Only up to 16 columns are not for the prompt kernels. -/
theorem route_narrow (hdomain : ¬ (1 < batch ∧ maximumVerifyTokens < width))
    (hroute : gqaAttentionResolveRoute qHeads width batch e ≠ .prompt) :
    width ≤ maximumVerifyTokens := by
  by_cases hwide : 1 ≤ width ∧ width ≤ smallTChunkTokens
  · have := hwide.2
    unfold smallTChunkTokens maximumVerifyTokens at *
    omega
  · rcases route_wide qHeads batch e hwide with
      ⟨h | ⟨-, h, -⟩, -⟩ | ⟨-, h⟩
    · omega
    · exact h
    · exact absurd h hroute

end

-- ============ the plan

section

variable {qHeads batch minWidth maxWidth : Int} {cacheDtype : DType}
  {e : GqaExecutionEnvelope} {o : OccupancyPolicy} {bytes : Nat}

theorem shapeForQHeads_op {shape shape' : GqaRegisteredShape}
    {op op' : String} (h : shapeForQHeads qHeads op = .ok shape)
    (h' : shapeForQHeads qHeads op' = .ok shape') : shape = shape' := by
  unfold shapeForQHeads at h h'
  split at h
  · next hq =>
    rw [if_pos hq] at h'
    exact Except.ok.inj (h.symm.trans h')
  · next hq27 =>
    rw [if_neg hq27] at h'
    split at h
    · next hq =>
      rw [if_pos hq] at h'
      exact Except.ok.inj (h.symm.trans h')
    · next hq35 =>
      rw [if_neg hq35] at h'
      split at h
      · next hq =>
        rw [if_pos hq] at h'
        exact Except.ok.inj (h.symm.trans h')
      · cases h

/-- What an accepted profile has room for: each of its widths up to 16. -/
theorem workspaceCapacity_ok
    (h : gqaAttentionWorkspaceCapacityBytes qHeads cacheDtype e o batch
      minWidth maxWidth = .ok bytes) :
    1 ≤ batch ∧ ∃ shape,
      shapeForQHeads qHeads "gqa_attention workspace" = .ok shape
        ∧ ∀ width, minWidth ≤ width → width ≤ maxWidth →
        width ≤ maximumVerifyTokens →
          ∃ c, exactCapacity qHeads cacheDtype e o shape.headDim batch width
            = .ok c ∧ c ≤ bytes := by
  obtain ⟨shape, hshape, h⟩ := bind_ok.mp h
  obtain ⟨hprofile, h⟩ := guard_ok.mp h
  refine ⟨by omega, shape, hshape, ?_⟩
  intro width hmin hmax hverify
  refine (maximumOf_ok _ h).2 width (mem_map.mpr
    ⟨(width - minWidth).toNat, mem_range.mpr ?_, ?_⟩)
  · omega
  · omega

/-- The calls within a scope fit where the capacity of their width does. -/
theorem body_fits {c : GqaAttentionCall} {headDim batch' : Int}
    {calls : List WorkspaceCall} {r : ArenaRun}
    (hq : c.qHeads = qHeads) (hdtype : c.cacheDtype = cacheDtype)
    (hmin : e.minVisibleKeys ≤ c.envelope.minVisibleKeys)
    (hmax : c.envelope.maxVisibleKeys ≤ e.maxVisibleKeys)
    (hpos : 0 ≤ batch') (hbatch : batch' ≤ batch)
    (hplan : gqaAttentionResolveRoute c.qHeads c.width batch' c.envelope
        ≠ .prompt →
      ∃ capacity, exactCapacity qHeads cacheDtype e o headDim batch c.width
        = .ok capacity ∧ capacity ≤ bytes)
    (h : (match gqaAttentionResolveRoute c.qHeads c.width batch' c.envelope with
      | .chunkedSmallT => c.chunkedCalls o headDim batch'
      | .smallT => c.chunkCalls o headDim batch' c.width
      | .prompt => .ok []) = .ok calls)
    (hbacked : Backed r.arena.base r.arena.cap 256)
    (hroom : roundUp r.arena.off 8 + bytes ≤ r.arena.cap) :
    Fits (roundUp r.arena.off 8 + bytes) (Keeps r r.arena.off) r
      (.enter :: calls ++ [.leave]) := by
  have hround := le_roundUp r.arena.off 8
  have hroute := route_cases c.qHeads c.width hbatch hmax
  unfold exactCapacity at hplan
  cases hway : gqaAttentionResolveRoute c.qHeads c.width batch' c.envelope with
  | prompt =>
    rw [hway] at h
    cases h
    refine scope_fits (by omega) ⟨?_, _, le_refl _, rfl, rfl, rfl, rfl⟩
    show r.arena.off ≤ _
    omega
  | smallT =>
    rw [hway] at h hroute hplan
    obtain ⟨capacity, hcapacity, hle⟩ := hplan nofun
    rw [← hq, ← hroute.resolve_left nofun] at hcapacity
    obtain ⟨tensors, hne, rfl, hbytes⟩ := chunk_le rfl hdtype hmin hmax hpos
      hbatch hcapacity h
    exact chunk_fits hne (hbytes.trans hle) hbacked (le_refl _) hroom
  | chunkedSmallT =>
    rw [hway] at h hroute hplan
    obtain ⟨capacity, hcapacity, hle⟩ := hplan nofun
    rw [← hq, ← hroute.resolve_left nofun] at hcapacity
    have hchunks := (maximumOf_ok _ hcapacity).2
    obtain ⟨chunks, hmap, h⟩ := bind_ok.mp h
    cases h
    refine scope_fits (by omega) ?_
    refine (@chunks_fit _ bytes _ ?_ r.entered hbacked (le_refl _)
      hroom).mono fun r' _ hkeeps => ⟨_, le_refl _, hkeeps⟩
    intro calls hcalls
    obtain ⟨count, hcount, hcalls⟩ := mapM_ok hmap calls hcalls
    obtain ⟨inner, hinner, hcalls⟩ := bind_ok.mp hcalls
    cases hcalls
    obtain ⟨planned, hplanned, hfits⟩ := hchunks count hcount
    obtain ⟨tensors, hne, rfl, hbytes⟩ := chunk_le rfl hdtype hmin hmax hpos
      hbatch hplanned hinner
    exact ⟨tensors, hne, rfl, hbytes.trans (hfits.trans hle)⟩

end

-- ============ the guarantee

/-- A call of a profile: of its heads and its format, within its widths,
its batch and its envelope. -/
structure GqaAttentionCall.Within (c : GqaAttentionCall) (qHeads : Int)
    (cacheDtype : DType) (e : GqaExecutionEnvelope)
    (batch minWidth maxWidth : Int) : Prop where
  qHeads : c.qHeads = qHeads
  cacheDtype : c.cacheDtype = cacheDtype
  minVisibleKeys : e.minVisibleKeys ≤ c.envelope.minVisibleKeys
  maxVisibleKeys : c.envelope.maxVisibleKeys ≤ e.maxVisibleKeys
  batch : c.batch ≤ batch
  minWidth : minWidth ≤ c.width
  maxWidth : c.width ≤ maxWidth

section

variable {qHeads batch minWidth maxWidth : Int} {cacheDtype : DType}
  {e : GqaExecutionEnvelope} {o : OccupancyPolicy} {bytes : Nat}
  {c : GqaAttentionCall} {calls : List WorkspaceCall}

/-- The route of a batch of one, which is asked for in two questions. -/
theorem cachedRouteCalls_eq (c : GqaAttentionCall) (o : OccupancyPolicy)
    (headDim : Int) :
    c.cachedRouteCalls o headDim
      = match gqaAttentionResolveRoute c.qHeads c.width 1 c.envelope with
        | .chunkedSmallT => c.chunkedCalls o headDim 1
        | .smallT => c.chunkCalls o headDim 1 c.width
        | .prompt => .ok [] := by
  unfold GqaAttentionCall.cachedRouteCalls
  by_cases hsmall : 1 ≤ c.width ∧ c.width ≤ smallTChunkTokens
  · have hway : gqaAttentionResolveRoute c.qHeads c.width 1 c.envelope
        = .smallT := if_pos hsmall
    rw [hway, if_neg nofun]
    exact if_pos hsmall
  · rcases route_wide c.qHeads 1 c.envelope hsmall with
      ⟨-, hway⟩ | ⟨-, hway⟩
    · rw [hway, if_pos rfl]
    · rw [hway, if_neg nofun]
      exact if_neg hsmall

variable {r : ArenaRun}
  (hplan : gqaAttentionWorkspaceCapacityBytes qHeads cacheDtype e o batch
    minWidth maxWidth = .ok bytes)
  (hwithin : c.Within qHeads cacheDtype e batch minWidth maxWidth)
  (hbacked : Backed r.arena.base r.arena.cap 256)
  (hroom : roundUp r.arena.off 8 + bytes ≤ r.arena.cap)

include hplan hwithin hbacked hroom

theorem gqaAttention_fits (h : c.gqaAttention o = .ok calls) :
    Fits (roundUp r.arena.off 8 + bytes) (Keeps r r.arena.off) r calls := by
  obtain ⟨-, shape, hshape, hwidths⟩ := workspaceCapacity_ok hplan
  obtain ⟨shape', hshape', h⟩ := bind_ok.mp h
  rw [hwithin.qHeads] at hshape'
  obtain rfl := shapeForQHeads_op hshape hshape'
  obtain ⟨hdomain, h⟩ := guard_ok.mp h
  obtain ⟨-, h⟩ := guard_ok.mp h
  obtain ⟨inner, hinner, rfl⟩ := map_ok.mp h
  refine body_fits hwithin.qHeads hwithin.cacheDtype hwithin.minVisibleKeys
    hwithin.maxVisibleKeys (by omega) hwithin.batch ?_ hinner hbacked hroom
  intro hroute
  exact hwidths c.width hwithin.minWidth hwithin.maxWidth
    (route_narrow (fun hwide => hdomain (by omega)) hroute)

theorem gqaAttentionCached_fits (h : c.gqaAttentionCached o = .ok calls) :
    Fits (roundUp r.arena.off 8 + bytes) (Keeps r r.arena.off) r calls := by
  obtain ⟨hbatch, shape, hshape, hwidths⟩ := workspaceCapacity_ok hplan
  obtain ⟨shape', hshape', h⟩ := bind_ok.mp h
  rw [hwithin.qHeads] at hshape'
  obtain rfl := shapeForQHeads_op hshape hshape'
  obtain ⟨-, h⟩ := guard_ok.mp h
  obtain ⟨-, h⟩ := guard_ok.mp h
  obtain ⟨-, h⟩ := guard_ok.mp h
  obtain ⟨inner, hinner, rfl⟩ := map_ok.mp h
  rw [cachedRouteCalls_eq] at hinner
  refine body_fits hwithin.qHeads hwithin.cacheDtype hwithin.minVisibleKeys
    hwithin.maxVisibleKeys (by decide : (0 : Int) ≤ 1) hbatch ?_ hinner
    hbacked hroom
  intro hroute
  exact hwidths c.width hwithin.minWidth hwithin.maxWidth
    (route_narrow (fun hwide => absurd hwide.1 (by decide)) hroute)

omit hplan hwithin hbacked hroom

/-- The capacity of an envelope is the largest count of its windows, and
what is planned for a profile suffices: in every arena that has room for
it, a call of the profile stays within it and gives it back. -/
theorem gqa_capacity :
    (∀ (g : GqaGeometry) (e : GqaExecutionEnvelope) (tokens : Nat)
      (dtype : KVDType) (o : OccupancyPolicy),
        e.minVisibleKeys ≤ e.maxVisibleKeys →
          (∀ w, e.Has w → gqaSmallTSplitCount g w tokens dtype o
              ≤ gqaSmallTLaunchCapacity g e tokens dtype o)
            ∧ ∃ w, e.Has w ∧ gqaSmallTLaunchCapacity g e tokens dtype o
              = gqaSmallTSplitCount g w tokens dtype o)
      ∧ ∀ (qHeads batch minWidth maxWidth : Int) (cacheDtype : DType)
        (e : GqaExecutionEnvelope) (o : OccupancyPolicy) (bytes : Nat)
        (c : GqaAttentionCall) (calls : List WorkspaceCall) (r : ArenaRun),
          gqaAttentionWorkspaceCapacityBytes qHeads cacheDtype e o batch
              minWidth maxWidth = .ok bytes →
            c.Within qHeads cacheDtype e batch minWidth maxWidth →
              c.gqaAttention o = .ok calls ∨ c.gqaAttentionCached o = .ok calls →
                Backed r.arena.base r.arena.cap 256 →
                  roundUp r.arena.off 8 + bytes ≤ r.arena.cap →
                    Fits (roundUp r.arena.off 8 + bytes)
                      (Keeps r r.arena.off) r calls := by
  refine ⟨fun g e tokens dtype o => launchCapacity_max g tokens dtype o, ?_⟩
  intro qHeads batch minWidth maxWidth cacheDtype e o bytes c calls r hplan
    hwithin hcalls hbacked hroom
  rcases hcalls with h | h
  · exact gqaAttention_fits hplan hwithin hbacked hroom h
  · exact gqaAttentionCached_fits hplan hwithin hbacked hroom h

/-- A batch of two calls of seven columns each, in an arena that begins
with 100 other bytes. -/
theorem gqa_capacity_two :
    (∃ w, (⟨1, 4096⟩ : GqaExecutionEnvelope).Has w
        ∧ gqaSmallTLaunchCapacity .gqa27 ⟨1, 4096⟩ 6 .bf16 ⟨170, 85⟩
          = gqaSmallTSplitCount .gqa27 w 6 .bf16 ⟨170, 85⟩)
      ∧ ∃ calls, GqaAttentionCall.gqaAttention
          ⟨24, .bf16, 7, 2, ⟨7, 2048⟩, 4096, 2⟩ ⟨170, 85⟩ = .ok calls
        ∧ Fits (256 + 9584640) (Keeps ⟨⟨4096, 9584896, 100, 100⟩, [], []⟩ 100)
          ⟨⟨4096, 9584896, 100, 100⟩, [], []⟩ calls :=
  ⟨(gqa_capacity.1 .gqa27 ⟨1, 4096⟩ 6 .bf16 ⟨170, 85⟩ (by decide)).2, _, rfl,
    gqa_capacity.2 24 2 5 8 .bf16 ⟨1, 4096⟩ ⟨170, 85⟩ 9584640
      ⟨24, .bf16, 7, 2, ⟨7, 2048⟩, 4096, 2⟩ _
      ⟨⟨4096, 9584896, 100, 100⟩, [], []⟩ rfl
      ⟨rfl, rfl, by decide, by decide, by decide, by decide, by decide⟩
      (Or.inl rfl) ⟨by decide, by decide, by decide, by decide⟩ (by decide)⟩

end

end Ginfer.Ops
