/-
The steps of one prefill unit.

`advance_prefill` touches no page: it moves the sequence, the request
control and the device contents of its lane (`Quiet`). A step that fails
does not fail for want of pages, and does not fail at all when everything
the lane was started with is in order (`UnitReady`).
-/
import Ginfer.Qwen.Proofs.Plan

namespace Ginfer.Qwen

open Ginfer.Lib Ginfer.Pool Ginfer.Admission Program

-- ============ the failures

/-- The texts of the pools and the KV bundle helpers: what is thrown when
a call does not fit the lane's entitlement, its mapped pages, its bundle
or its row. -/
@[simp] def kvFaults : List Exception :=
  [.invalidArgument "Paged KV materialize extent is outside entitlement",
    .logicError "Paged KV entitlement could not be materialized",
    .invalidArgument "Paged KV trim extent exceeds mapped pages",
    .logicError "Cannot trim an empty Paged KV allocation",
    .invalidArgument "Paged KV entitlement is smaller than mapped pages",
    .invalidArgument "Paged KV resize must name a live allocation",
    .invalidArgument "Paged KV resize extents are inconsistent",
    .invalidArgument "Paged KV resize contains the same pool twice",
    .invalidArgument "Paged KV reservation must name a pool and pages",
    .invalidArgument "Paged KV bundle contains the same pool twice",
    .logicError "Cannot bind an empty Paged KV allocation",
    .logicError "Paged KV allocation is already bound",
    .outOfRange "Paged KV block-table row out of range",
    .logicError "Paged KV block-table row is already bound",
    .logicError "sequence already owns a KV allocation bundle",
    .invalidArgument
      "KV allocation entitlement does not match the active backend",
    .invalidArgument "KV resize entitlement does not match the sequence bundle",
    .logicError "KV allocation bundle is unavailable or already bound",
    .logicError "KV materialization request is outside the sequence bundle",
    .logicError "backend KV materialization requested without an allocation",
    .logicError "KV trim request is outside the sequence bundle",
    .logicError "backend KV trim requested without an allocation"]

/-- The texts of the frontier checks of a round and of its resolution. -/
@[simp] def frontierFaults : List Exception :=
  [.logicError "ordinary batch row is not decode-ready",
    .logicError "MTP batch row is not decode-ready",
    .logicError "DFlash batch row is not decode-ready",
    .logicError "speculative pending row is not at its recorded base"]

/-- What the invariant of a lane rules out. -/
@[simp] def hostFaults : List Exception := kvFaults ++ frontierFaults

/-- A failure that is not for want of pages, and that `G` rules out. -/
structure Refusal (G : Prop) (e : Exception) : Prop where
  kv : e ∉ hostFaults
  alloc : e ≠ .badAlloc
  ready : ¬ G

-- ============ the frame

/-- Only the sequence and the request of `lane` moved, as far as the host
can see. -/
structure Quiet (lane : Lane) (s s' : Program) : Prop where
  kv : s'.kv = s.kv
  others : ∀ l, l ≠ lane → s'.sequences l = s.sequences l
    ∧ s'.requests l = s.requests l

section

variable {c : Config} {lane : Lane} {s s' s'' : Program}

theorem Quiet.refl : Quiet lane s s := ⟨rfl, fun _ _ => ⟨rfl, rfl⟩⟩

theorem Quiet.trans (h : Quiet lane s s') (h' : Quiet lane s' s'') :
    Quiet lane s s'' where
  kv := h'.kv.trans h.kv
  others := fun l hl => ⟨(h'.others l hl).1.trans (h.others l hl).1,
    (h'.others l hl).2.trans (h.others l hl).2⟩

theorem Quiet.setSequence (q : SequenceState) :
    Quiet lane s (s.setSequence lane q) :=
  ⟨rfl, fun _ hl => ⟨Function.update_of_ne hl .., rfl⟩⟩

theorem Quiet.setContents (l : Lane) (d : LaneContents) :
    Quiet lane s (s.setContents l d) :=
  ⟨rfl, fun _ _ => ⟨rfl, rfl⟩⟩

end

-- ============ small facts

/-- A chunk is never empty and never longer than asked for. -/
theorem chunkLength_bounds {cursor nominal : Nat} {capture : Option Nat}
    (h : 0 < nominal) : 0 < chunkLength cursor nominal capture
      ∧ chunkLength cursor nominal capture ≤ nominal := by
  unfold chunkLength
  cases capture with
  | none => exact ⟨h, le_refl _⟩
  | some frontier =>
    dsimp only
    split
    · omega
    · exact ⟨h, le_refl _⟩

variable {p : PreparedPromptData} {session : VisionPrefillSession} {e : Exception}

/-- The Vision session's failures are its own texts. -/
theorem encodeItem_texts {c : Config} {index : Nat} {control : VisionItemControl}
    (h : encodeItem c p session index control = .error e) :
    e ∉ hostFaults ∧ e ≠ .badAlloc := by
  unfold encodeItem at h
  split at h
  · cases h
    simp
  split at h
  · cases h
    simp
  split at h
  · cases h
    simp
  · cases h

theorem prepareItem_texts {c : Config}
    {plan : VisionPrefillPlan} {transient : TransientRegion} {index : Nat}
    (h : prepareItem c p plan transient session index = .error e) :
    e ∉ hostFaults ∧ e ≠ .badAlloc := by
  unfold prepareItem at h
  split at h
  · split at h
    · cases h
      simp
    split at h
    · cases h
      simp
    split at h
    · cases h
      simp
    split at h
    · cases h
      simp
    split at h
    · cases h
    split at h
    · next hencode =>
      cases h
      exact encodeItem_texts hencode
    · cases h
  · cases h
    simp

theorem prepareChunk_texts {c : Config}
    {plan : VisionPrefillPlan} {transient : TransientRegion}
    {begin nominal : Nat}
    (h : prepareChunk c p plan transient session begin nominal = .error e) :
    e ∉ hostFaults ∧ e ≠ .badAlloc := by
  unfold prepareChunk at h
  split at h
  · cases h
    simp
  dsimp only at h
  split at h
  · cases h
    simp
  split at h
  · cases h
  split at h
  · next hitem =>
    cases h
    exact prepareItem_texts hitem
  · cases h

-- ============ what a unit relies on

/-- Everything a unit started on this lane relies on besides its pages:
the sampled token is a token, the position of the first generated token
fits, the prompt's metadata covers it, the bridge and the exact hit are
where they were planned, and the Vision items can be encoded. -/
structure UnitReady (c : Config) (q : SequenceState) (staged : Prefill)
    (d : PrefillDevice) : Prop where
  token : 0 ≤ d.token ∧ d.token < tokenDomain
  identity : ∃ r, q.prefixIdentity.appendGenerated q.ropeDelta 1 = .ok r
  prompt : staged.prompt.tokenIds.length = staged.promptTokens
  positions : staged.prompt.positions.length = 3 * staged.prompt.tokenIds.length
  nonempty : 0 < staged.promptTokens
  bridge : staged.mtpBridge = .beforeSuffix →
    staged.cursor = staged.base ∧ staged.base ≠ 0
      ∧ staged.cursor < staged.promptTokens
      ∧ ∃ r, bridgeEmbedding c staged = .ok r
  exact_hit : staged.cursor = staged.promptTokens →
    q.tailHiddenValid = true
      ∧ (staged.prepareMtp = true → staged.mtpBridge = .afterExactHit)
  capture : ∀ spec, staged.rewriteCheckpointCapture = some spec →
    0 < spec.frontier ∧ spec.frontier ≤ staged.promptTokens
  chunk : ∀ staged', (staged' = staged
      ∨ ∃ e, bridgeEmbedding c staged = .ok (e, staged')) →
    ∀ plan session nominal, staged'.visionPlan = some plan →
      staged'.vision = some session → 0 < nominal →
      staged'.cursor < staged'.promptTokens →
      c.speculativeBackend ≠ .dflash
        ∧ ∃ r, prepareChunk c staged'.prompt plan staged'.transient session
            staged'.cursor nominal = .ok r

section

variable {c : Config} {lane : Lane} {s : Program} {staged : Prefill}
  {j : Job} {d : PrefillDevice}

variable {G : Prop}

theorem promptRopePosition_spec {token : Nat}
    (hG : G → token < staged.prompt.tokenIds.length
      ∧ staged.prompt.positions.length = 3 * staged.prompt.tokenIds.length) :
    Yields (promptRopePosition staged.prompt token)
      (fun _ => True) (Refusal G) := by
  unfold promptRopePosition
  refine yields_guard ?_ (fun _ => trivial)
  intro hfail
  refine ⟨by simp, by simp, ?_⟩
  intro hg
  have := hG hg
  omega

/-- The bridge's embedding, and the session it may have advanced. -/
theorem bridgeEmbedding_spec (hG : G → ∃ r, bridgeEmbedding c staged = .ok r) :
    Yields (bridgeEmbedding c staged)
      (fun r => bridgeEmbedding c staged = .ok r
        ∧ ∃ session, r.2 = { staged with vision := session })
      (Refusal G) := by
  have hready : ∀ e, bridgeEmbedding c staged = .error e → ¬ G := by
    intro e he hg
    obtain ⟨r, hr⟩ := hG hg
    rw [he] at hr
    cases hr
  cases h : bridgeEmbedding c staged with
  | ok r =>
    refine ⟨rfl, ?_⟩
    unfold bridgeEmbedding at h
    dsimp only at h
    split at h
    · split at h
      · cases h
        exact ⟨_, rfl⟩
      · split at h
        · cases h
        · cases h
        · obtain ⟨-, h⟩ := guard_ok.mp h
          cases h
          exact ⟨_, rfl⟩
    · cases h
      exact ⟨_, rfl⟩
  | error e =>
    have htexts : e ∉ hostFaults ∧ e ≠ .badAlloc := by
      unfold bridgeEmbedding at h
      dsimp only at h
      split at h
      · split at h
        · cases h
        · split at h
          · next hchunk =>
            cases h
            exact prepareChunk_texts hchunk
          · cases h
            simp
          · split at h
            · cases h
              simp
            · cases h
      · cases h
    exact ⟨htexts.1, htexts.2, hready e h⟩

/-- The bridge before a suffix: MTP reaches the reuse base. -/
theorem bridgeBeforeSuffix_spec :
    Yields (bridgeBeforeSuffix c s lane staged)
      (fun r => Quiet lane s r.1 ∧ r.1.requests lane = s.requests lane
        ∧ (∃ mtp, r.1.sequences lane
        = { s.sequences lane with mtpKVValid := mtp })
        ∧ ((r.1 = s ∧ r.2 = staged ∧ staged.mtpBridge ≠ .beforeSuffix)
          ∨ ∃ e staged', staged.mtpBridge = .beforeSuffix
            ∧ bridgeEmbedding c staged = .ok (e, staged')
            ∧ (∃ session, staged' = { staged with vision := session })
            ∧ r.2 = { staged' with mtpBridge := .none }))
      (Refusal (UnitReady c (s.sequences lane) staged d)) := by
  unfold bridgeBeforeSuffix
  split
  · next hno =>
    exact ⟨Quiet.refl, rfl, ⟨_, rfl⟩, Or.inl ⟨rfl, rfl, hno⟩⟩
  next hyes =>
  have hbridge : staged.mtpBridge = .beforeSuffix := by
    simpa using hyes
  refine yields_guard ?_ ?_
  · intro hfail
    refine ⟨by simp, by simp, ?_⟩
    intro hready
    obtain ⟨hcursor, hbase, hlt, -⟩ := hready.bridge hbridge
    omega
  intro hpass
  have hrope : Yields (promptRopePosition staged.prompt
      (staged.base - 1)) (fun _ => True)
      (Refusal (UnitReady c (s.sequences lane) staged d)) := by
    refine promptRopePosition_spec ?_
    intro hready
    have hprompt := hready.prompt
    exact ⟨by omega, hready.positions⟩
  refine hrope.bind ?_
  intro rope _
  refine (bridgeEmbedding_spec fun hready : UnitReady c (s.sequences lane)
    staged d => (hready.bridge hbridge).2.2.2).bind ?_
  rintro ⟨next, staged'⟩ ⟨hembed, session, hsession⟩
  refine ⟨?_, rfl, ⟨staged'.base, ?_⟩, Or.inr ⟨next, staged', hbridge,
    hembed, ⟨session, hsession⟩, rfl⟩⟩
  · exact (Quiet.setContents lane _).trans (Quiet.setSequence _)
  · exact Function.update_self ..

/-- A chunk only writes device memory. -/
theorem runChunk_host (ids : List TokenIdentity)
    (active : Option (Nat × VisionItemControl)) (captures : Bool) :
    (s.runChunk c lane staged ids active captures d).kv = s.kv
      ∧ (s.runChunk c lane staged ids active captures d).sequences = s.sequences
      ∧ (s.runChunk c lane staged ids active captures d).requests
        = s.requests := by
  unfold runChunk consumePrefillChunk
  dsimp only
  split
  · split
    · exact ⟨rfl, rfl, rfl⟩
    · exact ⟨rfl, rfl, rfl⟩
  · exact ⟨rfl, rfl, rfl⟩

/-- What a chunk keeps of the staged prefill. -/
structure SameStage (staged staged' : Prefill) : Prop where
  base : staged'.base = staged.base
  cursor : staged'.cursor = staged.cursor
  promptTokens : staged'.promptTokens = staged.promptTokens
  initialMtpExtent : staged'.initialMtpExtent = staged.initialMtpExtent
  prepareMtp : staged'.prepareMtp = staged.prepareMtp
  capture : staged'.rewriteCheckpointCapture = staged.rewriteCheckpointCapture

theorem SameStage.refl : SameStage staged staged :=
  ⟨rfl, rfl, rfl, rfl, rfl, rfl⟩

/-- The zero-suffix branch. -/
theorem sampleExactHit_spec (hG : G → (s.sequences lane).tailHiddenValid = true
      ∧ (staged.prepareMtp = true → staged.mtpBridge = .afterExactHit)
      ∧ staged.promptTokens - 1 < staged.prompt.tokenIds.length
      ∧ staged.prompt.positions.length = 3 * staged.prompt.tokenIds.length) :
    Yields (sampleExactHit s lane staged d)
      (fun r => Quiet lane s r.1 ∧ r.1.requests = s.requests
        ∧ SameStage staged r.2
        ∧ r.1.sequences lane = { s.sequences lane with
        mtpKVValid := if staged.prepareMtp then staged.promptTokens
              else (s.sequences lane).mtpKVValid })
      (Refusal G) := by
  unfold sampleExactHit
  refine yields_guard ?_ ?_
  · intro hfail
    refine ⟨by simp, by simp, ?_⟩
    intro hg
    rw [(hG hg).1] at hfail
    cases hfail
  intro _
  split
  · next hprep =>
    refine ⟨Quiet.refl, rfl, SameStage.refl, ?_⟩
    rw [hprep]
    rfl
  next hprep =>
  have hprep' : staged.prepareMtp = true := by simpa using hprep
  refine yields_guard ?_ ?_
  · intro hfail
    refine ⟨by simp, by simp, ?_⟩
    intro hg
    exact hfail ((hG hg).2.1 hprep')
  intro _
  refine (promptRopePosition_spec (fun hg => (hG hg).2.2)).bind ?_
  intro rope _
  refine ⟨(Quiet.setContents lane _).trans (Quiet.setSequence _), rfl,
    ⟨rfl, rfl, rfl, rfl, rfl, rfl⟩, ?_⟩
  show Function.update _ lane _ lane = _
  rw [Function.update_self, hprep']
  rfl

-- ============ the calls

end

end Ginfer.Qwen
