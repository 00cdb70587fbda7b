/-
The sequence layout is affine in its pages.

Two persistent layouts that differ in their page groups are planned side
by side (`Leads`): all that differs is the pools, and their planes take a
multiple of the arena's alignment for a page, so no padding changes
(`planPersistent_leads`). What is added to the persistent bytes reads no
page count.
-/
import Ginfer.Executor.Proofs.KvCapacity
import Ginfer.Layout.Proofs.Builder
import Ginfer.Qwen.SequenceLayout

namespace Ginfer.Qwen

open Ginfer.Lib List
open Ginfer.Layout
open Ginfer.KvCapacity (checkedAdd checkedMul)
open Ginfer.Pool (pagedKVPageSize)

variable {v : Variant} {plan : SequencePlanningInputs}

-- ============ the planes

/-- The planes of a cache. -/
def cachePlanes (layers : Nat) (dtype : DType)
    (headDim kvHeads quantGroup : Int) : List PagedKVPlaneSpec :=
  (range layers).flatMap fun _ =>
    layerPlanes dtype headDim kvHeads quantGroup

/-- The planes of the text cache, or of as many layers. -/
def textPlanes (v : Variant) (plan : SequencePlanningInputs)
    (layers : Nat) : List PagedKVPlaneSpec :=
  cachePlanes layers plan.kvDType v.headDim v.kvHeads plan.kvQuantGroup

/-- The planes of the full pool of DFlash, if it has one. -/
def dflashPlanes (v : Variant) (plan : SequencePlanningInputs) :
    List PagedKVPlaneSpec :=
  if 0 < v.dflashFullLayers then (dflashFullPool v plan 0 0).planes else []

/-- The planes whose size is by the page: those of the text cache, of the
MTP cache and of the full pool of DFlash. -/
def pagedPlanes (v : Variant) (plan : SequencePlanningInputs) :
    List PagedKVPlaneSpec :=
  textPlanes v plan v.fullAttentionLayers
    ++ (if plan.features.mtp then textPlanes v plan v.mtpLayers else [])
    ++ if (v.supportsDFlash && plan.features.dflash) = true then
        dflashPlanes v plan
      else []

/-- Every plane's page is a multiple of its alignment. -/
def PlanesAligned (v : Variant) (plan : SequencePlanningInputs) : Prop :=
  ∀ plane ∈ pagedPlanes v plan, plane.alignment ∣ plane.pageBytes

theorem cachePlanes_alignment {layers : Nat} {dtype : DType}
    {headDim kvHeads quantGroup : Int} :
    ∀ plane ∈ cachePlanes layers dtype headDim kvHeads quantGroup,
      plane.alignment = 256 := by
  intro plane hmem
  obtain ⟨_, -, hlayer⟩ := mem_flatMap.mp hmem
  unfold layerPlanes at hlayer
  rcases mem_append.mp hlayer with h | h
  · simp only [mem_cons, not_mem_nil, or_false, or_self] at h
    rw [h]
  · split at h
    · simp only [mem_cons, not_mem_nil, or_false, or_self] at h
      rw [h]
    · cases h

variable {p k : Nat}

/-- A cache with more pages. -/
theorem planCache_leads {layers capacity : Nat} {kvHeads headDim : Int}
    {dtype : DType} {quantGroup tableRows : Int}
    (heven : ∀ plane ∈ cachePlanes layers dtype headDim kvHeads quantGroup,
      plane.alignment ∣ plane.pageBytes)
    (hp : 0 < p) (hfits : p + k < 2 ^ 31) :
    Leads Ahead Overflows
      (k * pagesBytes (cachePlanes layers dtype headDim kvHeads quantGroup))
      (planCache layers capacity kvHeads headDim dtype quantGroup tableRows p)
      (planCache layers capacity kvHeads headDim dtype quantGroup tableRows
        (p + k)) := by
  unfold planCache
  refine leads_refuse id fun _ => leads_refuse id fun _ => ?_
  refine leads_checked fun logical _ => ?_
  refine leads_refuse (fun h => by omega) fun _ => ?_
  exact planPagedKVPool_leads (fun plane hmem =>
    ⟨cachePlanes_alignment plane hmem, heven plane hmem⟩) hp hfits

-- ============ the round state

theorem arenaTensor_same (dtype : DType) (shape : List Int) (label : String) :
    Leads Ahead Overflows 0 (arenaTensor dtype shape label)
      (arenaTensor dtype shape label) :=
  addTensor_same dtype shape label

theorem validate_same (spec : RoundStateSpec) :
    Leads Ahead Overflows 0 spec.validate spec.validate := by
  unfold RoundStateSpec.validate
  iterate 11 refine leads_refuse id fun _ => ?_
  exact leads_checked fun _ _ => leads_checked fun _ _ => leads_pure ()

theorem beginRoundStateLayout_same (spec : RoundStateSpec) :
    Leads Ahead Overflows 0 (beginRoundStateLayout spec)
      (beginRoundStateLayout spec) := by
  unfold beginRoundStateLayout
  refine (validate_same spec).before fun _ => ?_
  dsimp only
  refine leads_ite (fun _ => ?_) fun _ => ?_
  · repeat first
      | exact arenaTensor_same _ _ _
      | refine (arenaTensor_same _ _ _).before fun _ => ?_
      | refine (region_same _ _).before fun _ => ?_
      | refine leads_checked fun _ _ => ?_
  · repeat first
      | exact arenaTensor_same _ _ _
      | refine (arenaTensor_same _ _ _).before fun _ => ?_

theorem completeMtpLayout_same (spec : RoundStateSpec) (columns drafts : Int) :
    Leads Ahead Overflows 0 (completeMtpLayout spec columns drafts)
      (completeMtpLayout spec columns drafts) := by
  unfold completeMtpLayout
  repeat first
    | exact arenaTensor_same _ _ _
    | refine (arenaTensor_same _ _ _).before fun _ => ?_
    | refine (region_same _ _).before fun _ => ?_
    | refine leads_checked fun _ _ => ?_

theorem completeDFlashLayout_same (spec : RoundStateSpec) (columns : Int) :
    Leads Ahead Overflows 0 (completeDFlashLayout spec columns)
      (completeDFlashLayout spec columns) := by
  unfold completeDFlashLayout
  repeat first
    | exact arenaTensor_same _ _ _
    | refine (arenaTensor_same _ _ _).before fun _ => ?_
    | refine (region_same _ _).before fun _ => ?_
    | refine leads_checked fun _ _ => ?_
    | refine leads_ite (fun _ => ?_) fun _ => ?_
    | dsimp only

theorem completeRoundStateLayout_same (spec : RoundStateSpec) :
    Leads Ahead Overflows 0 (completeRoundStateLayout spec)
      (completeRoundStateLayout spec) := by
  unfold completeRoundStateLayout
  refine (validate_same spec).before fun _ => ?_
  refine leads_checked fun columns _ => leads_checked fun drafts _ => ?_
  dsimp only
  have hdflash : Leads Ahead Overflows 0
      (if spec.enableDFlash = true then completeDFlashLayout spec columns
        else pure ())
      (if spec.enableDFlash = true then completeDFlashLayout spec columns
        else pure ()) :=
    leads_ite (fun _ => completeDFlashLayout_same spec columns)
      fun _ => leads_pure ()
  refine leads_ite (fun _ => ?_) fun _ => hdflash
  exact (completeMtpLayout_same spec columns drafts).before fun _ => hdflash

theorem planRoundTail_same (v : Variant) (plan : SequencePlanningInputs)
    (chunk : Int) :
    Leads Ahead Overflows 0 (planRoundTail v plan chunk)
      (planRoundTail v plan chunk) := by
  unfold planRoundTail
  generalize (((samplingConfigBytes + 4 - 1) / 4 : Nat) : Int) = words
  refine (beginRoundStateLayout_same _).before fun _ => ?_
  refine (arenaTensor_same _ _ _).before fun _ => ?_
  refine (completeRoundStateLayout_same _).before fun _ => ?_
  refine (arenaTensor_same _ _ _).before fun _ => ?_
  refine (arenaTensor_same _ _ _).before fun _ => ?_
  exact (arenaTensor_same _ _ _).before fun _ => arenaTensor_same _ _ _

-- ============ the persistent layout

theorem planReplayRecords_same (v : Variant) (plan : SequencePlanningInputs) :
    Leads Ahead Overflows 0 (planReplayRecords v plan)
      (planReplayRecords v plan) := by
  unfold planReplayRecords
  refine (planGdnReplayRecords_same _).before fun _ => ?_
  exact leads_ite (fun _ => planGdnReplayRecords_same _)
    fun _ => leads_pure ()

theorem planDFlashLocal_same (v : Variant) (plan : SequencePlanningInputs) :
    Leads Ahead Overflows 0 (planDFlashLocal v plan) (planDFlashLocal v plan) :=
  (planCyclicKVCache_same _ _ _ _ _).before
    fun _ => planCyclicKVCache_same _ _ _ _ _

theorem planDFlashFeatures_same (v : Variant)
    (plan : SequencePlanningInputs) (chunk : Int) :
    Leads Ahead Overflows 0 (planDFlashFeatures v plan chunk)
      (planDFlashFeatures v plan chunk) :=
  (arenaTensor_same _ _ _).before fun _ =>
    (arenaTensor_same _ _ _).before fun _ => arenaTensor_same _ _ _

/-- The bytes a page group takes. -/
def pageGroupBytes (v : Variant) (plan : SequencePlanningInputs) : Nat :=
  pagesBytes (pagedPlanes v plan)

theorem pagesBytes_append (a b : List PagedKVPlaneSpec) :
    pagesBytes (a ++ b) = pagesBytes a + pagesBytes b := by
  unfold pagesBytes
  rw [map_append, sum_append]

/-- The caches of the decoder. -/
theorem planDecoderState_leads (haligned : PlanesAligned v plan)
    {slots : Int} {m : Nat} (hp : 0 < p) (hpm : p ≤ m)
    (hfits : m + k < 2 ^ 31) :
    Leads Ahead Overflows
      (k * (pagesBytes (textPlanes v plan v.fullAttentionLayers)
        + pagesBytes (if plan.features.mtp then textPlanes v plan v.mtpLayers
        else [])))
      (planDecoderState v plan slots p m)
      (planDecoderState v plan slots (p + k) (m + k)) := by
  unfold planDecoderState
  rw [mul_add]
  refine Leads.bind (planCache_leads (fun plane hmem => haligned plane ?_)
    hp (by omega)) fun _ => ?_
  · exact mem_append_left _ (mem_append_left _ hmem)
  · dsimp only
    refine leads_ite (fun hmtp => ?_) fun hmtp => ?_
    · rw [if_pos hmtp]
      refine (planCache_leads (fun plane hmem => haligned plane ?_)
        (by omega) hfits).after fun _ =>
          planLinearAttentionStatePool_same _
      refine mem_append_left _ (mem_append_right _ ?_)
      rw [if_pos hmtp]
      exact hmem
    · rw [if_neg hmtp]
      exact planLinearAttentionStatePool_same _

theorem dflashFullPool_alignment {logical physical : Nat} :
    ∀ plane ∈ (dflashFullPool v plan logical physical).planes,
      plane.alignment = 256 := by
  intro plane hmem
  rcases mem_cons.mp hmem with rfl | hmem
  · rfl
  · rcases mem_cons.mp hmem with rfl | hmem
    · rfl
    · cases hmem

/-- The caches of DFlash. -/
theorem planDFlash_leads
    (haligned : ∀ plane ∈ dflashPlanes v plan, plane.alignment ∣ plane.pageBytes)
    {logical : Nat} {chunk : Int} (hp : 0 < p) (hfits : p + k < 2 ^ 31) :
    Leads Ahead Overflows (k * pagesBytes (dflashPlanes v plan))
      (planDFlash v plan logical p chunk)
      (planDFlash v plan logical (p + k) chunk) := by
  unfold planDFlash
  unfold dflashPlanes at haligned ⊢
  refine (planDFlashLocal_same v plan).before fun _ => ?_
  dsimp only
  refine leads_ite (fun hfull => ?_) fun hfull => ?_
  · rw [if_pos hfull] at haligned ⊢
    refine Leads.after ?_ fun _ => planDFlashFeatures_same v plan chunk
    exact planPagedKVPool_leads (fun plane hmem =>
      ⟨dflashFullPool_alignment plane hmem, haligned plane hmem⟩) hp hfits
  · rw [if_neg hfull]
    exact planDFlashFeatures_same v plan chunk

/-- The persistent layout for `k` more page groups: every page takes its
bytes once more. -/
theorem planPersistent_leads (haligned : PlanesAligned v plan) (hp : 0 < p) :
    Leads Ahead Overflows (k * pageGroupBytes v plan)
      (planPersistent v plan p) (planPersistent v plan (p + k)) := by
  have htail := planRoundTail_same v plan
    (castInt32 (min plan.prefillChunk plan.capacity))
  unfold planPersistent
  refine leads_checked fun slots _ => ?_
  dsimp only
  refine leads_checked fun logical _ => ?_
  refine leads_checked_bind fun pages hpages => ?_
  unfold checkedI32 at hpages ⊢
  rw [guard_ok] at hpages
  obtain ⟨-, hpages⟩ := hpages
  cases hpages
  split
  · exact .inr ⟨_, rfl, _, rfl⟩
  · next hfits =>
    refine .inl ⟨_, rfl, ?_⟩
    rw [Int.toNat_natCast, Int.toNat_natCast, add_right_comm p k]
    unfold pageGroupBytes pagedPlanes
    rw [pagesBytes_append, pagesBytes_append, mul_add]
    refine (planDecoderState_leads haligned hp (Nat.le_add_right _ _)
      (by omega)).bind fun _ => ?_
    -- the pool of DFlash, if there is one, and the fixed regions
    have hdflash : Leads Ahead Overflows
        (k * pagesBytes
          (if (v.supportsDFlash && plan.features.dflash) = true then
            dflashPlanes v plan else []))
        (if (v.supportsDFlash && plan.features.dflash) = true then
          planDFlash v plan logical p
              (castInt32 (min plan.prefillChunk plan.capacity)) >>=
            fun _ => planRoundTail v plan
              (castInt32 (min plan.prefillChunk plan.capacity))
        else planRoundTail v plan
          (castInt32 (min plan.prefillChunk plan.capacity)))
        (if (v.supportsDFlash && plan.features.dflash) = true then
          planDFlash v plan logical (p + k)
              (castInt32 (min plan.prefillChunk plan.capacity)) >>=
            fun _ => planRoundTail v plan
              (castInt32 (min plan.prefillChunk plan.capacity))
        else planRoundTail v plan
          (castInt32 (min plan.prefillChunk plan.capacity))) := by
      refine leads_ite (fun hon => ?_) fun hoff => ?_
      · rw [if_pos hon]
        refine (planDFlash_leads (fun plane hmem => haligned plane ?_) hp
          (by omega)).after fun _ => htail
        refine mem_append_right _ ?_
        rw [if_pos hon]
        exact hmem
      · rw [if_neg hoff]
        exact htail
    refine leads_ite (fun _ => ?_) fun _ => hdflash
    exact (planReplayRecords_same v plan).before fun _ => hdflash

-- ============ the candidates

/-- A layout that is not empty. -/
def Filled (s : Planned) : Prop := 0 < s.builder.peak

theorem addTensor_fills (dtype : DType) (shape : List Int)
    (label : String) : Ends Filled (addTensor dtype shape 256 label) := by
  rw [addTensor_eq]
  refine Ends.last fun bytes s a s' hrun => ?_
  unfold region at hrun
  rw [add_256] at hrun
  split at hrun
  · cases hrun
  · split at hrun
    · cases hrun
    · obtain ⟨-, rfl⟩ := Prod.mk.inj (Except.ok.inj hrun)
      exact lt_of_lt_of_le (by omega) (le_max_right _ _)

theorem planPersistent_fills (v : Variant) (plan : SequencePlanningInputs)
    (physicalPages : Nat) :
    Ends Filled (planPersistent v plan physicalPages) := by
  have htail : ∀ chunk, Ends Filled (planRoundTail v plan chunk) := by
    intro chunk
    unfold planRoundTail
    iterate 6 refine Ends.last fun _ => ?_
    exact addTensor_fills _ _ _
  have hdflash : ∀ logical chunk, Ends Filled
      (if (v.supportsDFlash && plan.features.dflash) = true then
        planDFlash v plan logical physicalPages chunk >>=
          fun _ => planRoundTail v plan chunk
      else planRoundTail v plan chunk) :=
    fun logical chunk => ends_ite (Ends.last fun _ => htail chunk) (htail chunk)
  unfold planPersistent
  iterate 4 refine Ends.last fun _ => ?_
  exact ends_ite (Ends.last fun _ => hdflash _ _) (hdflash _ _)

/-- The persistent layouts of `p` and of `p + k` page groups. -/
theorem persistentLayout_affine (haligned : PlanesAligned v plan)
    (hp : 0 < p) {layout : PersistentLayout}
    (hlayout : persistentLayout v plan p = .ok layout) :
    0 < layout.bytes ∧ layout.bytes < 2 ^ 64
      ∧ ((∃ later, persistentLayout v plan (p + k) = .ok later
        ∧ later.bytes = layout.bytes + k * pageGroupBytes v plan)
        ∨ ∃ e, persistentLayout v plan (p + k) = .error e
        ∧ Overflows e) := by
  unfold persistentLayout at hlayout ⊢
  obtain ⟨⟨⟨⟩, planned⟩, hplanned, hlayout⟩ := bind_ok.mp hlayout
  have hfilled := planPersistent_fills v plan p _ _ _ hplanned
  unfold Filled at hfilled
  have hstart : Ahead 0 ({} : Planned) {} :=
    ⟨Nat.dvd_zero 256, rfl, rfl, rfl⟩
  have hleads := planPersistent_leads (k := k) haligned hp 0 {} {} hstart
    () planned hplanned
  dsimp only at hlayout
  obtain ⟨bytes, hfinish, hlayout⟩ := bind_ok.mp hlayout
  cases hlayout
  unfold LayoutBuilder.finish at hfinish ⊢
  rw [alignUp_256, guard_ok] at hfinish
  obtain ⟨hfits, hfinish⟩ := hfinish
  cases hfinish
  refine ⟨by dsimp only; omega, by dsimp only; omega, ?_⟩
  rcases hleads with ⟨t, ht, hahead⟩ | ⟨e, he, hexcuse⟩
  · rw [ht, ok_bind]
    dsimp only
    rw [alignUp_256]
    split
    · exact .inr ⟨_, rfl, _, rfl⟩
    · refine .inl ⟨_, rfl, ?_⟩
      obtain ⟨⟨q, hq⟩, hcursor, hpeak, hlater⟩ := hahead
      rw [zero_add] at hq hcursor
      rw [hlater, hcursor, ← hpeak, hq]
      dsimp only
      omega
  · rw [he]
    exact .inr ⟨e, rfl, hexcuse⟩

theorem checkedAdd_ok {a b n : Nat} {label : String} (ha : a < 2 ^ 64)
    (h : checkedAdd a b label = .ok n) : n = a + b ∧ n < 2 ^ 64 := by
  unfold checkedAdd at h
  rw [guard_ok] at h
  obtain ⟨hfits, h⟩ := h
  cases h
  exact ⟨rfl, by omega⟩

/-- The checked sum of two values that are larger by the same. -/
theorem checkedAdd_later (a b extra : Nat) (label : String) :
    checkedAdd (a + extra) b label = .ok (a + b + extra)
      ∨ ∃ e, checkedAdd (a + extra) b label = .error e ∧ Overflows e := by
  unfold checkedAdd
  split
  · exact .inr ⟨_, rfl, _, rfl⟩
  · rw [add_right_comm]
    exact .inl rfl

/-- The candidates of `p` and of `p + k` page groups. -/
theorem candidate_affine (haligned : PlanesAligned v plan)
    {candidate : SequencePlan}
    (hcandidate : buildSequenceCandidate v plan p = .ok candidate) :
    0 < candidate.deviceReservationBytes
      ∧ candidate.deviceReservationBytes < 2 ^ 64
      ∧ ((∃ later, buildSequenceCandidate v plan (p + k) = .ok later
        ∧ later.deviceReservationBytes
          = candidate.deviceReservationBytes + k * pageGroupBytes v plan)
        ∨ ∃ e, buildSequenceCandidate v plan (p + k) = .error e
        ∧ Overflows e) := by
  unfold buildSequenceCandidate at hcandidate ⊢
  dsimp only at hcandidate ⊢
  have hp : p ≠ 0 := by
    rintro rfl
    cases hcandidate
  rw [if_neg hp] at hcandidate
  obtain ⟨capacity, -, hcandidate⟩ := bind_ok.mp hcandidate
  obtain ⟨layout, hlayout, hcandidate⟩ := bind_ok.mp hcandidate
  obtain ⟨workspace, hworkspace, hcandidate⟩ := bind_ok.mp hcandidate
  obtain ⟨transient, htransient, hcandidate⟩ := bind_ok.mp hcandidate
  obtain ⟨graph, hgraph, hcandidate⟩ := bind_ok.mp hcandidate
  obtain ⟨planned, hplanned, hcandidate⟩ := bind_ok.mp hcandidate
  obtain ⟨requested, hrequested, hcandidate⟩ := bind_ok.mp hcandidate
  obtain ⟨reservation, hreservation, hcandidate⟩ := bind_ok.mp hcandidate
  cases hcandidate
  obtain ⟨hpositive, hword, hlater⟩ :=
    persistentLayout_affine (k := k) haligned (pos_of_ne_zero hp) hlayout
  obtain ⟨rfl, hword⟩ := checkedAdd_ok hword hplanned
  obtain ⟨rfl, hword⟩ := checkedAdd_ok hword hrequested
  obtain ⟨rfl, hword⟩ := checkedAdd_ok hword hreservation
  refine ⟨by dsimp only; omega, hword, ?_⟩
  rw [if_neg (by omega)]
  unfold checkedI32
  dsimp only
  split
  · exact .inr ⟨_, rfl, _, rfl⟩
  · rw [ok_bind]
    rcases hlater with ⟨later, hlater, hbytes⟩ | ⟨e, he, hexcuse⟩
    · rw [hlater, ok_bind, hworkspace, ok_bind, htransient, ok_bind, hgraph,
        ok_bind, hbytes]
      rcases checkedAdd_later layout.bytes workspace
        (k * pageGroupBytes v plan) "sequence memory plan" with
        hsum | ⟨e, he, hexcuse⟩
      · rw [hsum, ok_bind]
        rcases checkedAdd_later (layout.bytes + workspace) transient
          (k * pageGroupBytes v plan) "request transient reservation" with
          hsum | ⟨e, he, hexcuse⟩
        · rw [hsum, ok_bind]
          rcases checkedAdd_later (layout.bytes + workspace + transient)
            graph (k * pageGroupBytes v plan) "sequence graph allowance"
            with hsum | ⟨e, he, hexcuse⟩
          · rw [hsum]
            exact .inl ⟨_, rfl, rfl⟩
          · rw [he]
            exact .inr ⟨e, rfl, hexcuse⟩
        · rw [he]
          exact .inr ⟨e, rfl, hexcuse⟩
      · rw [he]
        exact .inr ⟨e, rfl, hexcuse⟩
    · rw [he]
      exact .inr ⟨e, rfl, hexcuse⟩

-- ============ the planner

theorem pageBounds_ok {capacity concurrency least most : Nat}
    (hconcurrency : concurrency ≠ 0)
    (h : pageBounds capacity concurrency = .ok (least, most)) :
    0 < least ∧ least ≤ most ∧ most < 2 ^ 32 := by
  unfold pageBounds at h
  obtain ⟨logical, hlogical, h⟩ := bind_ok.mp h
  unfold pageCount at hlogical
  rw [guard_ok] at hlogical
  obtain ⟨-, hlogical⟩ := hlogical
  cases hlogical
  dsimp only at h
  obtain ⟨hfits, h⟩ := guard_ok.mp h
  cases h
  generalize hpages : 1 + (capacity - 1) / pagedKVPageSize = pages at hfits ⊢
  have hpositive : 0 < pages :=
    hpages ▸ Nat.lt_of_lt_of_le Nat.one_pos (Nat.le_add_right _ _)
  refine ⟨lt_of_lt_of_le hpositive (le_max_left _ _),
    Nat.max_le.mpr ⟨?_, ?_⟩, by omega⟩
  · exact Nat.le_mul_of_pos_left pages (pos_of_ne_zero hconcurrency)
  · exact Nat.le_mul_of_pos_right concurrency hpositive

/-- What a planner holds: the candidate of the least number of page
groups, and the bytes of a page group where there can be one more. -/
structure Plans (v : Variant) (planner : SequencePlanner) : Prop where
  minimum : buildSequenceCandidate v planner.inputs
    planner.curve.minimumMainPageGroups = .ok planner.minimum
  reservation : planner.curve.minimumDeviceReservationBytes
    = planner.minimum.deviceReservationBytes
  valid : KvCapacity.validateCurve planner.curve = .ok ()
  stride : planner.curve.minimumMainPageGroups
      < planner.curve.maximumMainPageGroups →
    planner.curve.bytesPerAdditionalMainPageGroup
      = pageGroupBytes v planner.inputs

theorem makeSequencePlanner_plans {options : EngineOptions}
    {planner : SequencePlanner}
    (h : makeSequencePlanner v options = .ok planner)
    (haligned : PlanesAligned v planner.inputs) : Plans v planner := by
  unfold makeSequencePlanner at h
  obtain ⟨_, hoptions, h⟩ := bind_ok.mp h
  dsimp only at h
  obtain ⟨⟨least, most⟩, hbounds, h⟩ := bind_ok.mp h
  obtain ⟨minimum, hminimum, h⟩ := bind_ok.mp h
  obtain ⟨stride, hstride, h⟩ := bind_ok.mp h
  cases h
  have hconcurrency : options.maxConcurrency ≠ 0 := by
    intro hzero
    unfold validateTargetOptions at hoptions
    dsimp only at hoptions
    obtain ⟨-, hoptions⟩ := guard_ok.mp hoptions
    rw [if_pos (.inl hzero)] at hoptions
    cases hoptions
  obtain ⟨hleast, hordered, hmost⟩ := pageBounds_ok hconcurrency hbounds
  dsimp only at haligned
  obtain ⟨hpositive, hword, hadjacent⟩ :=
    candidate_affine (k := 1) haligned hminimum
  have hleast_mod : least % 2 ^ 32 = least := Nat.mod_eq_of_lt (by omega)
  have hmost_mod : most % 2 ^ 32 = most := Nat.mod_eq_of_lt hmost
  have hgroup : least < most → 0 < stride % 2 ^ 64
      ∧ stride % 2 ^ 64 = pageGroupBytes v (planningInputs options) := by
    intro hgrows
    unfold adjacentStride at hstride
    rw [if_pos hgrows] at hstride
    obtain ⟨adjacent, hbuild, hstride⟩ := bind_ok.mp hstride
    have hbytes : adjacent.deviceReservationBytes
        = minimum.deviceReservationBytes
          + 1 * pageGroupBytes v (planningInputs options) := by
      rcases hadjacent with ⟨later, hlater, hbytes⟩ | ⟨e, he, -⟩
      · obtain rfl := Except.ok.inj (hbuild.symm.trans hlater)
        exact hbytes
      · rw [he] at hbuild
        cases hbuild
    have hadjacent_word := (candidate_affine (k := 0) haligned hbuild).2.1
    dsimp only at hstride
    split at hstride
    · cases hstride
    · cases hstride
      rw [Nat.mod_eq_of_lt (by omega)]
      omega
  refine ⟨?_, Nat.mod_eq_of_lt hword, ?_, ?_⟩
  · change buildSequenceCandidate v _ (least % 2 ^ 32) = _
    rw [hleast_mod]
    exact hminimum
  · refine (if_neg ?_).trans (if_neg ?_)
    · change ¬ (pagedKVPageSize = 0 ∨ least % 2 ^ 32 = 0
        ∨ most % 2 ^ 32 < least % 2 ^ 32
        ∨ minimum.deviceReservationBytes % 2 ^ 64 = 0)
      rw [hleast_mod, hmost_mod, Nat.mod_eq_of_lt hword]
      have hpage : pagedKVPageSize ≠ 0 := by decide
      omega
    · rintro ⟨hgrows, hzero⟩
      change least % 2 ^ 32 < most % 2 ^ 32 at hgrows
      rw [hleast_mod, hmost_mod] at hgrows
      exact ne_of_gt (hgroup hgrows).1 hzero
  · intro hgrows
    change least % 2 ^ 32 < most % 2 ^ 32 at hgrows
    rw [hleast_mod, hmost_mod] at hgrows
    exact (hgroup hgrows).2

/-- What the curve says of page groups it has. -/
theorem reservationBytes_or {curve : KvCapacity.SequenceCapacityCurve}
    (hcurve : KvCapacity.validateCurve curve = .ok ()) {pages : Nat}
    (hmin : curve.minimumMainPageGroups ≤ pages)
    (hmax : pages ≤ curve.maximumMainPageGroups) :
    curve.reservationBytes pages = .ok (curve.reservation pages)
      ∨ ∃ e, curve.reservationBytes pages = .error e ∧ Overflows e := by
  unfold KvCapacity.SequenceCapacityCurve.reservationBytes
    KvCapacity.SequenceCapacityCurve.reservation
  rw [KvCapacity.checkPages_ok hcurve hmin hmax, ok_bind]
  unfold checkedMul checkedAdd
  split
  · exact .inr ⟨_, rfl, _, rfl⟩
  · rw [ok_bind]
    split
    · exact .inr ⟨_, rfl, _, rfl⟩
    · exact .inl rfl

/-- The layout is affine in its page groups: a candidate between the
bounds of the curve reserves what the curve says, and is what the planner
finalises to. If it does not fit in its sizes, both say so. -/
theorem sequence_layout_affine (v : Variant) (options : EngineOptions)
    (planner : SequencePlanner)
    (hplanner : makeSequencePlanner v options = .ok planner)
    (haligned : PlanesAligned v planner.inputs) (n : Nat)
    (hmin : planner.curve.minimumMainPageGroups ≤ n)
    (hmax : n ≤ planner.curve.maximumMainPageGroups) :
    (∃ candidate, buildSequenceCandidate v planner.inputs n = .ok candidate
        ∧ candidate.deviceReservationBytes
          = planner.minimum.deviceReservationBytes
            + (n - planner.curve.minimumMainPageGroups)
              * planner.curve.bytesPerAdditionalMainPageGroup
        ∧ finalizeSequencePlan v planner n = .ok candidate)
      ∨ (∃ e, buildSequenceCandidate v planner.inputs n = .error e ∧ Overflows e)
        ∧ ∃ e, finalizeSequencePlan v planner n = .error e
          ∧ Overflows e := by
  have hplans := makeSequencePlanner_plans hplanner haligned
  obtain ⟨k, rfl⟩ := Nat.exists_eq_add_of_le hmin
  obtain ⟨-, -, hlater⟩ :=
    candidate_affine (k := k) haligned hplans.minimum
  have hstride : k * pageGroupBytes v planner.inputs
      = k * planner.curve.bytesPerAdditionalMainPageGroup := by
    cases k with
    | zero => rw [Nat.zero_mul, Nat.zero_mul]
    | succ k => rw [hplans.stride (by omega)]
  rw [hstride] at hlater
  rw [Nat.add_sub_cancel_left]
  have hexact : planner.curve.reservation
        (planner.curve.minimumMainPageGroups + k)
      = planner.minimum.deviceReservationBytes
        + k * planner.curve.bytesPerAdditionalMainPageGroup := by
    unfold KvCapacity.SequenceCapacityCurve.reservation
    rw [Nat.add_sub_cancel_left, hplans.reservation]
  rcases hlater with ⟨candidate, hbuild, hbytes⟩ | ⟨e, he, hexcuse⟩
  · have hword := (candidate_affine (k := 0) haligned hbuild).2.1
    refine Or.inl ⟨candidate, hbuild, hbytes, ?_⟩
    have hexpected := KvCapacity.reservationBytes_eq hplans.valid hmin hmax
      (by rw [hexact, ← hbytes]; exact hword)
    unfold finalizeSequencePlan
    rw [hexpected, ok_bind]
    have hagrees : ¬ candidate.deviceReservationBytes
        ≠ planner.curve.reservation
          (planner.curve.minimumMainPageGroups + k) := by
      rw [hexact, hbytes, not_not]
    dsimp only
    split
    · next hzero =>
      rw [hzero] at hbuild
      obtain rfl := Except.ok.inj (hplans.minimum.symm.trans hbuild)
      rw [ok_bind, if_neg hagrees]
      rfl
    · rw [hbuild, ok_bind, if_neg hagrees]
      rfl
  · refine Or.inr ⟨⟨e, he, hexcuse⟩, ?_⟩
    have hmore : ¬ planner.curve.minimumMainPageGroups + k
        = planner.curve.minimumMainPageGroups := by
      intro hzero
      rw [hzero, hplans.minimum] at he
      cases he
    unfold finalizeSequencePlan
    rcases reservationBytes_or hplans.valid hmin hmax with
      hexpected | ⟨e', he', hexcuse'⟩
    · rw [hexpected, ok_bind, if_neg hmore, he]
      exact ⟨e, rfl, hexcuse⟩
    · rw [he']
      exact ⟨e', rfl, hexcuse'⟩

/-- The sizes of the dense target, with a workspace of one GiB. -/
def denseVariant : Variant where
  maximumContext := 262144
  maximumMtpDraftTokens := 5
  maximumDFlashDraftTokens := 7
  supportsDFlash := true
  fullAttentionLayers := 16
  mtpLayers := 1
  kvHeads := 4
  headDim := 256
  gdnLayers := 48
  convolutionDim := 10240
  gdnConvStateWidth := 3
  gdnKeyHeads := 16
  gdnKeyHeadDim := 128
  gdnValueHeads := 48
  gdnValueHeadDim := 128
  hidden := 5120
  outputRows := 248320
  tokenDomain := 248077
  dflashSampled := true
  dflashLocalLayers := 5
  dflashLocalCapacity := 2048
  dflashKVHeads := 8
  dflashHeadDim := 128
  dflashFullLayers := 0
  dflashFeatureRows := 25600
  dflashSelectorTopK := 16
  workspaceCapacity := fun _ => .ok (2 ^ 30)
  outputTransientBytes := fun tokens => .ok (5120 * 2 * tokens)
  mtpGraphProfiles := mtpGraphProfiles
  dflashGraphProfiles := dflashGraphProfiles

/-- Two sequences of 8192 tokens, drafted for by MTP. -/
def twoSequences : EngineOptions where
  maxContext := 8192
  kvCapacity := ⟨.automatic, 0, 0, Nat.two_pow_pos _, Nat.two_pow_pos _⟩
  maxConcurrency := 2
  prefillChunk := 1024
  kvCacheBFloat16 := false
  backend := .mtp
  draftTokens := 3
  proposalHead := .full
  enableVision := true
  useCudaGraph := true

/-- Their 200 page groups are 72 more than the least. -/
theorem sequence_layout_affine_twoSequences :
    ∃ planner, makeSequencePlanner denseVariant twoSequences = .ok planner
      ∧ ∃ candidate,
        buildSequenceCandidate denseVariant planner.inputs 200 = .ok candidate
          ∧ candidate.deviceReservationBytes = 2272288000 + 72 * 2297856
          ∧ finalizeSequencePlan denseVariant planner 200
            = .ok candidate := by
  have hmap : (makeSequencePlanner denseVariant twoSequences).map
      (fun p => (p.inputs, p.curve.minimumMainPageGroups,
        p.curve.maximumMainPageGroups, p.minimum.deviceReservationBytes,
        p.curve.bytesPerAdditionalMainPageGroup))
      = .ok (planningInputs twoSequences, 128, 256, 2272288000, 2297856) := by
    decide +kernel
  obtain ⟨planner, hplanner, hvalues⟩ := map_ok.mp hmap
  obtain ⟨hinputs, hleast, hmost, hbytes, hstride⟩ :
      planner.inputs = planningInputs twoSequences
        ∧ planner.curve.minimumMainPageGroups = 128
        ∧ planner.curve.maximumMainPageGroups = 256
        ∧ planner.minimum.deviceReservationBytes = 2272288000
        ∧ planner.curve.bytesPerAdditionalMainPageGroup = 2297856 := by
    simpa only [Prod.mk.injEq] using hvalues
  have haligned : PlanesAligned denseVariant planner.inputs := by
    rw [hinputs]
    unfold PlanesAligned
    decide +kernel
  have hfits : (buildSequenceCandidate denseVariant planner.inputs
      200).toOption.isSome = true := by
    rw [hinputs]
    decide +kernel
  refine ⟨planner, hplanner, ?_⟩
  rcases sequence_layout_affine denseVariant twoSequences planner hplanner
    haligned 200 (by rw [hleast]; decide) (by rw [hmost]; decide) with
    ⟨candidate, hbuild, hreservation, hfinal⟩ | ⟨⟨e, he, -⟩, -⟩
  · rw [hleast, hbytes, hstride] at hreservation
    exact ⟨candidate, hbuild, hreservation, hfinal⟩
  · rw [he] at hfits
    exact nomatch hfits

end Ginfer.Qwen
