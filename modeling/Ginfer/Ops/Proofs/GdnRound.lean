/-
A verification round: record, then fold the accepted prefix.

`Round` holds what a round is made of and what its callers promise. The
fold finds in the records what the record form loaded
(`foldAfter_eq`), so it runs through the same states; a channel's
history becomes the one of a decoder that saw the committed columns one
by one (`finalHistory_eq`). Together:
`gdn_replay_commits_accepted_prefix`.
-/
import Ginfer.Ops.Proofs.CausalConv
import Ginfer.Ops.Proofs.GdnFold

namespace Ginfer.Ops.GdnReplay

open Ginfer.Lib List
open Ginfer.Lib.Launch

/-- A round of one of the registered geometries: rows with their slots,
valid columns and commits, and the inputs of every layer. Strides are in
elements. -/
structure Round (F B : Type) where
  geometry : FoldGeometry
  registered : geometry = foldGeometry48x48 ∨ geometry = foldGeometry30x32
  recordCapacity : Nat
  capacity_le : recordCapacity ≤ 8
  width : Nat
  width_ge : 2 ≤ width
  width_le : width ≤ 16
  slotCount : Nat
  recurrentStride : Nat
  recurrent_fits : slotCount * (geometry.valueHeads * 128 * 128) ≤ recurrentStride
  convStride : Nat
  conv_fits : slotCount * (3 * geometry.convChannels) ≤ convStride
  rows : List FoldKernelRow
  rows_pos : rows ≠ []
  rows_le : rows.length ≤ recordCapacity
  slots_lt : ∀ row ∈ rows, row.linearStateSlot < slotCount
  slots_distinct : (rows.map (·.linearStateSlot)).Nodup
  validColumns : Option (Nat → Nat)
  inputs : Nat → Inputs F B
  valid : ∀ b < rows.length,
    0 < (validColumns.getD fun _ => width) b ∧
      (validColumns.getD fun _ => width) b ≤ width
  commit_le : ∀ b < rows.length, (rows.getD b ⟨0, 0⟩).commitColumns
    ≤ (validColumns.getD fun _ => width) b

/-- The group of a value head is a Q/K head. -/
theorem HeadMap.qkHead_eq {qkHeads valueHeads h : Nat}
    (hone : 1 ≤ valueHeads / qkHeads) (hmax : valueHeads < 2 ^ 31)
    (hh : h < valueHeads / qkHeads * qkHeads) :
    (HeadMap.of qkHeads valueHeads).qkHead h
        = h / (HeadMap.of qkHeads valueHeads).groupSize ∧
      h / (HeadMap.of qkHeads valueHeads).groupSize < qkHeads := by
  refine ⟨?_, Nat.div_lt_of_lt_mul hh⟩
  have hle : valueHeads / qkHeads ≤ valueHeads := Nat.div_le_self _ _
  have hlt : h < 2 ^ 31 := by
    have := Nat.div_mul_le_self valueHeads qkHeads
    omega
  have hgroup : (UInt64.ofNat (valueHeads / qkHeads)).toNat
      = valueHeads / qkHeads :=
    UInt64.toNat_ofNat_of_lt' (Nat.lt_of_le_of_lt hle
      (Nat.lt_trans hmax (by decide)))
  have hhead : (UInt32.ofNat h).toNat = h :=
    UInt32.toNat_ofNat_of_lt' (Nat.lt_trans hlt (by decide))
  rw [← hgroup] at hone hle
  obtain ⟨values, hvalues, hshift, hx⟩ :=
    Fastdiv.initFastdivValues_eq hone (by omega)
  have hquotient := Fastdiv.toNat_fastdiv hone (by omega) hshift hx
    (n := UInt32.ofNat h) (by omega)
  rw [hhead, hgroup] at hquotient
  rw [HeadMap.qkHead, HeadMap.of, hvalues]
  exact hquotient

namespace Round

variable {F B : Type} (round : Round F B)

/-- The calls of the snapshot and record form. -/
def call : Call F B :=
  { heads := .of round.geometry.qkHeads round.geometry.valueHeads
    width := round.width
    rows := round.rows.length
    validColumns := round.validColumns
    initialSlots := fun b => (round.rows.getD b ⟨0, 0⟩).linearStateSlot
    recurrentStride := round.recurrentStride
    inputs := round.inputs }

def fold : Fold :=
  { geometry := round.geometry
    recurrentStride := round.recurrentStride
    convStride := round.convStride
    recordCapacity := round.recordCapacity
    width := round.width
    rows := round.rows }

/-- What `gdn_replay_fold` is called with. -/
def recordSpec : RecordSpec :=
  { layers := round.geometry.layers
    recordCapacity := round.recordCapacity
    width := round.width
    convChannels := round.geometry.convChannels
    qkHeads := round.geometry.qkHeads
    valueHeads := round.geometry.valueHeads
    keyDim := 128
    valueDim := 128 }

def statesView : StatesView :=
  { layers := round.geometry.layers
    convChannels := round.geometry.convChannels
    convWidth := 3
    valueHeads := round.geometry.valueHeads
    valueHeadDim := 128
    keyHeadDim := 128
    slotCount := round.slotCount
    convIsBf16 := true
    convLayerStrideBytes := round.convStride * 2
    recurrentLayerStrideBytes := round.recurrentStride * 4 }

def foldRows : List FoldRow :=
  round.rows.map fun row => ⟨row.linearStateSlot, row.commitColumns⟩

-- ============ the promises

theorem heads_eq : ∀ h < round.geometry.valueHeads,
    round.call.heads.qkHead h = h / round.call.heads.groupSize ∧
      h / round.call.heads.groupSize < round.geometry.qkHeads := by
  intro h hh
  rw [call]
  rcases round.registered with hgeometry | hgeometry <;> rw [hgeometry] at hh ⊢
  · exact HeadMap.qkHead_eq (by decide) (by decide) (hh.trans_eq (by decide))
  · exact HeadMap.qkHead_eq (by decide) (by decide) (hh.trans_eq (by decide))

theorem row_mem {b : Nat} (hb : b < round.rows.length) :
    round.fold.row b ∈ round.rows := by
  rw [Fold.row, fold, getD_eq_getElem?_getD, List.getElem?_eq_getElem hb]
  exact getElem_mem hb

theorem activeColumns_eq (b : Nat) :
    round.call.activeColumns b
      = (round.validColumns.getD fun _ => round.width) b := by
  rw [Call.activeColumns, call]
  cases round.validColumns with
  | none => rfl
  | some validColumns => rfl

theorem call_fits : round.call.Fits round.slotCount where
  active := by
    intro b hb
    rw [activeColumns_eq]
    exact round.valid b hb
  initial := by
    intro b hb
    exact round.slots_lt _ (round.row_mem hb)
  stride := round.recurrent_fits
  heads := round.heads_eq

theorem fold_fits : round.fold.Fits round.slotCount where
  slot := by
    intro b hb
    exact round.slots_lt _ (round.row_mem hb)
  distinct := by
    intro b hb b' hb' hsame
    change b < round.rows.length at hb
    change b' < round.rows.length at hb'
    have hmap : b < (round.rows.map (·.linearStateSlot)).length := by
      rwa [length_map]
    have hmap' : b' < (round.rows.map (·.linearStateSlot)).length := by
      rwa [length_map]
    refine round.slots_distinct.getElem_inj_iff.mp
      (?_ : (round.rows.map (·.linearStateSlot))[b]
        = (round.rows.map (·.linearStateSlot))[b'])
    rw [getElem_map, getElem_map]
    rw [Fold.row, Fold.row, fold, getD_eq_getElem?_getD,
      getD_eq_getElem?_getD, List.getElem?_eq_getElem hb,
      List.getElem?_eq_getElem hb'] at hsame
    exact hsame
  recurrent := round.recurrent_fits
  conv := round.conv_fits
  whole := by
    change round.geometry.convChannels % 128 = 0
    rcases round.registered with hgeometry | hgeometry <;> rw [hgeometry] <;>
      rfl
  pos := by
    change 0 < round.geometry.convChannels
    rcases round.registered with hgeometry | hgeometry <;> rw [hgeometry] <;>
      decide
  reach := by
    change round.geometry.convChannels / 128 ≤ round.geometry.valueHeads * 8
    rcases round.registered with hgeometry | hgeometry <;> rw [hgeometry] <;>
      decide

-- ============ the checks

theorem validateFoldRecords_ok :
    validateFoldRecords round.recordSpec = .ok round.geometry := by
  have hrows : 0 < round.rows.length :=
    length_pos_iff.mpr round.rows_pos
  have hcapacity := round.rows_le
  have hle := round.capacity_le
  have hge := round.width_ge
  have hwidth := round.width_le
  have hsupported : ¬ (round.recordSpec.recordCapacity ≤ 0 ∨
      8 < round.recordSpec.recordCapacity ∨ round.recordSpec.width < 2 ∨
      16 < round.recordSpec.width ∨ round.recordSpec.keyDim ≠ 128 ∨
      round.recordSpec.valueDim ≠ 128) := by
    change ¬ ((round.recordCapacity : Int) ≤ 0 ∨
      (8 : Int) < round.recordCapacity ∨ (round.width : Int) < 2 ∨
      (16 : Int) < round.width ∨ (128 : Int) ≠ 128 ∨ (128 : Int) ≠ 128)
    omega
  have hregistered : registeredFoldGeometry round.recordSpec
      = some round.geometry := by
    rw [registeredFoldGeometry, recordSpec]
    rcases round.registered with hgeometry | hgeometry <;> rw [hgeometry] <;>
      rfl
  rw [validateFoldRecords, hregistered]
  exact if_neg hsupported

theorem validateFoldStates_ok :
    validateFoldStates round.recordSpec round.statesView = .ok () := by
  have hchannels := round.fold_fits.pos
  change 0 < round.geometry.convChannels at hchannels
  have hheads : 0 < round.geometry.valueHeads := by
    rcases round.registered with hgeometry | hgeometry <;> rw [hgeometry] <;>
      decide
  obtain ⟨row, hrow⟩ := exists_mem_of_ne_nil _ round.rows_pos
  have hslots : 0 < round.slotCount := by
    have := round.slots_lt row hrow
    omega
  have hconv : round.geometry.convChannels * 3 * round.slotCount
      ≤ round.convStride := by
    have hfits := round.conv_fits
    calc round.geometry.convChannels * 3 * round.slotCount
        = round.slotCount * (3 * round.geometry.convChannels) := by ring
      _ ≤ round.convStride := hfits
  have hrecurrent : 128 * 128 * round.geometry.valueHeads * round.slotCount
      ≤ round.recurrentStride := by
    have hfits := round.recurrent_fits
    calc 128 * 128 * round.geometry.valueHeads * round.slotCount
        = round.slotCount * (round.geometry.valueHeads * 128 * 128) := by ring
      _ ≤ round.recurrentStride := hfits
  have hconvPos : 0 < round.geometry.convChannels * 3 * round.slotCount :=
    mul_pos (mul_pos hchannels (by decide)) hslots
  have hrecurrentPos :
      0 < 128 * 128 * round.geometry.valueHeads * round.slotCount :=
    mul_pos (mul_pos (by decide) hheads) hslots
  have hconvInt : (round.geometry.convChannels * 3 * round.slotCount : Int)
      ≤ round.convStride := by exact_mod_cast hconv
  have hrecurrentInt :
      (128 * 128 * round.geometry.valueHeads * round.slotCount : Int)
        ≤ round.recurrentStride := by exact_mod_cast hrecurrent
  have hconvPosInt :
      (0 : Int) < round.geometry.convChannels * 3 * round.slotCount := by
    exact_mod_cast hconvPos
  have hrecurrentPosInt :
      (0 : Int) < 128 * 128 * round.geometry.valueHeads
        * round.slotCount := by
    exact_mod_cast hrecurrentPos
  rw [validateFoldStates]
  refine (if_neg ?_).trans (if_neg ?_)
  · change ¬ ((round.geometry.layers : Int) ≠ round.geometry.layers ∨
      (round.geometry.convChannels : Int) ≠ round.geometry.convChannels ∨
      (3 : Int) ≠ 3 ∨
      (round.geometry.valueHeads : Int) ≠ round.geometry.valueHeads ∨
      (128 : Int) ≠ 128 ∨ (128 : Int) ≠ 128 ∨ (round.slotCount : Int) ≤ 0 ∨
      true = false)
    simp only [ne_eq, not_true_eq_false, false_or, or_false, reduceCtorEq]
    omega
  · change ¬ ((round.convStride * 2 : Int) ≤ 0 ∨
      (round.recurrentStride * 4 : Int) ≤ 0 ∨
      (round.convStride * 2 : Int) % 2 ≠ 0 ∨
      (round.recurrentStride * 4 : Int) % 4 ≠ 0 ∨
      (round.convStride * 2 : Int)
        < round.geometry.convChannels * 3 * round.slotCount * 2 ∨
      (round.recurrentStride * 4 : Int)
        < 128 * 128 * round.geometry.valueHeads * round.slotCount * 4)
    omega

/-- Rows in range with slots of their own pass. -/
theorem validateRows_ok (record : RecordSpec) (state : StatesView)
    (previous : List FoldRow) (rows : List FoldKernelRow)
    (hrange : ∀ row ∈ rows, (row.linearStateSlot : Int) < state.slotCount ∧
      (row.commitColumns : Int) ≤ record.width)
    (hdistinct : (rows.map (·.linearStateSlot)).Nodup)
    (hprevious : ∀ row ∈ rows, ∀ other ∈ previous,
      other.linearStateSlot ≠ row.linearStateSlot) :
    validateRows record state previous
      (rows.map fun row => ⟨row.linearStateSlot, row.commitColumns⟩)
        = .ok rows := by
  induction rows generalizing previous with
  | nil => rfl
  | cons row rest ih =>
    obtain ⟨hslot, hcommit⟩ := hrange row (.head _)
    rw [map_cons, nodup_cons] at hdistinct
    have hinside : ¬ ((row.linearStateSlot : Int) < 0 ∨
        state.slotCount ≤ row.linearStateSlot) := by omega
    have hextent : ¬ ((row.commitColumns : Int) < 0 ∨
        record.width < row.commitColumns) := by omega
    have hfresh : ¬ (previous.any fun other =>
        other.linearStateSlot = (row.linearStateSlot : Int)) = true := by
      rw [any_eq_true]
      rintro ⟨other, hother, hsame⟩
      exact hprevious row (.head _) other hother (of_decide_eq_true hsame)
    have hrest := ih (previous ++ [⟨row.linearStateSlot, row.commitColumns⟩])
      (fun other hother => hrange other (.tail _ hother))
      hdistinct.2
      (by
        intro other hother earlier hearlier
        rcases mem_append.mp hearlier with hearlier | hearlier
        · exact hprevious other (.tail _ hother) earlier hearlier
        · rw [mem_singleton] at hearlier
          subst hearlier
          intro hsame
          change (row.linearStateSlot : Int) = other.linearStateSlot at hsame
          refine hdistinct.1 (mem_map.mpr ⟨other, hother, ?_⟩)
          omega)
    rw [map_cons, validateRows, if_neg hinside, if_neg hextent,
      if_neg hfresh, hrest]
    rfl

theorem validateFoldRows_ok :
    validateFoldRows round.recordSpec round.statesView round.foldRows
      = .ok round.rows := by
  have hcount : ¬ (round.foldRows = [] ∨
      round.recordSpec.recordCapacity < round.foldRows.length) := by
    rintro (hempty | hmany)
    · exact round.rows_pos (map_eq_nil_iff.mp hempty)
    · have hle := round.rows_le
      rw [foldRows, length_map] at hmany
      change (round.recordCapacity : Int) < _ at hmany
      omega
  rw [validateFoldRows, if_neg hcount]
  refine validateRows_ok _ _ _ _ ?_ round.slots_distinct ?_
  · intro row hrow
    have hslot := round.slots_lt row hrow
    obtain ⟨b, hb, hget⟩ := getElem_of_mem hrow
    have hcommit := round.commit_le b hb
    have hvalid := (round.valid b hb).2
    rw [getD_eq_getElem?_getD, List.getElem?_eq_getElem hb, hget] at hcommit
    change row.commitColumns ≤ _ at hcommit
    change (row.linearStateSlot : Int) < round.slotCount ∧
      (row.commitColumns : Int) ≤ round.width
    omega
  · intro row hrow other hother
    cases hother

/-- The fold runs. -/
theorem gdnReplayFold_eq (recurrence : Recurrence F B) (order : List Warp)
    (m : Memory F B) :
    gdnReplayFold recurrence round.recordSpec round.statesView
        round.foldRows order m
      = .ok (run (round.fold.kernel recurrence) order m) := by
  have hrecurrent : (round.statesView.recurrentLayerStrideBytes / 4).toNat
      = round.recurrentStride := by
    change ((round.recurrentStride * 4 : Int) / 4).toNat = _
    omega
  have hconv : (round.statesView.convLayerStrideBytes / 2).toNat
      = round.convStride := by
    change ((round.convStride * 2 : Int) / 2).toNat = _
    omega
  rw [gdnReplayFold, validateFoldRecords_ok, validateFoldStates_ok,
    validateFoldRows_ok]
  change Except.ok (run (Fold.kernel recurrence
    { geometry := round.geometry
      recurrentStride :=
        (round.statesView.recurrentLayerStrideBytes / 4).toNat
      convStride := (round.statesView.convLayerStrideBytes / 2).toNat
      recordCapacity := round.recordCapacity
      width := round.width
      rows := round.rows }) order m) = _
  rw [hrecurrent, hconv]
  rfl

-- ============ the states

/-- Element `[i, d]` of a head's state in a slot. -/
abbrev stateCell (layer slot head : Nat) (i d : Fin 128) : Cell :=
  .recurrent (stateBase round.recurrentStride round.geometry.valueHeads layer
    slot head + i * 128 + d)

/-- What it is. -/
def stateAt (m : Memory F B) (layer slot head : Nat) (i d : Fin 128) : F :=
  m (round.stateCell layer slot head i d)

/-- The warp of the forms that holds row `i`. -/
def warpOf (b head : Nat) (i : Fin 128) : Warp :=
  ⟨head, b, i / 16, i % 16 / 4⟩

/-- The warp of the fold that holds it in a layer. -/
def foldWarpOf (layer b head : Nat) (i : Fin 128) : Warp :=
  ⟨head, b, layer * 8 + i / 16, i % 16 / 4⟩

/-- The register row of row `i`. -/
def registerOf (i : Fin 128) : Fin 4 := ⟨i % 4, Nat.mod_lt _ (by decide)⟩

theorem row_digits (i : Fin 128) :
    (i : Nat) / 16 * 16 + i % 16 / 4 * 4 + registerOf i = i := by
  change (i : Nat) / 16 * 16 + i % 16 / 4 * 4 + i % 4 = i
  omega

/-- The state of a head after the first `n` columns of row `b`. -/
def stateAfter (recurrence : Recurrence F B) (m : Memory F B)
    (layer b head n : Nat) (i d : Fin 128) : F :=
  round.call.after recurrence layer (warpOf b head i) m n (registerOf i) d

section

variable {layer b head : Nat} (hb : b < round.rows.length)
  (hhead : head < round.geometry.valueHeads)

include hb hhead in
theorem warpOf_runs (i : Fin 128) : round.call.Runs (warpOf b head i) := by
  have hi := i.isLt
  refine ⟨hhead, hb, ?_, ?_⟩
  · change (i : Nat) / 16 < 8
    omega
  · change (i : Nat) % 16 / 4 < 4
    omega

include hb hhead in
theorem foldWarpOf_runs (hlayer : layer < round.geometry.layers)
    (i : Fin 128) : round.fold.Runs (foldWarpOf layer b head i) := by
  have hi := i.isLt
  refine ⟨hhead, hb, ?_, ?_⟩
  · change layer * 8 + (i : Nat) / 16 < round.geometry.layers * 8
    omega
  · change (i : Nat) % 16 / 4 < 4
    omega

theorem call_stateCell (slot : Nat) (i d : Fin 128) :
    round.call.stateCell layer slot (warpOf b head i) (registerOf i) d
      = round.stateCell layer slot head i d := by
  change Cell.recurrent (_ + ((i : Nat) / 16 * 16 + i % 16 / 4 * 4
    + registerOf i) * 128 + d) = _
  rw [row_digits]
  rfl

/-- The layer and tile of the fold's warp are those of the form's. -/
theorem foldWarpOf_coordinates (i : Fin 128) :
    round.fold.coordinates (foldWarpOf layer b head i)
      = { batch := b
          layer := layer
          stateTile := i / 16
          warp := i % 16 / 4
          valueHead := head
          qkHead := head / (round.geometry.valueHeads
            / round.geometry.qkHeads) } := by
  have hi := i.isLt
  have hlayer : (layer * 8 + (i : Nat) / 16) >>> 3 = layer := by
    rw [Nat.shiftRight_eq_div_pow]
    omega
  have htile : (layer * 8 + (i : Nat) / 16) &&& 7 = (i : Nat) / 16 := by
    rw [show (7 : Nat) = 2 ^ 3 - 1 from rfl, Nat.and_two_pow_sub_one_eq_mod]
    omega
  change Coordinates.mk b _ _ _ _ _ = _
  change Coordinates.mk b ((layer * 8 + (i : Nat) / 16) >>> 3)
    ((layer * 8 + (i : Nat) / 16) &&& 7) _ _ _ = _
  rw [hlayer, htile]
  rfl

theorem fold_tileCell (i d : Fin 128) :
    round.fold.tileCell (foldWarpOf layer b head i) (registerOf i) d
      = round.stateCell layer (round.fold.row b).linearStateSlot head i
        d := by
  rw [Fold.tileCell, foldWarpOf_coordinates]
  change Cell.recurrent (_ + ((i : Nat) / 16 * 16 + i % 16 / 4 * 4
    + registerOf i) * 128 + d) = _
  rw [row_digits]
  rfl

-- What memory holds there; a cell cannot be rewritten under its content.

theorem read_stateCell (m : Memory F B) (slot : Nat) (i d : Fin 128) :
    m (round.call.stateCell layer slot (warpOf b head i) (registerOf i) d)
      = m (round.stateCell layer slot head i d) :=
  congrArg (fun a => (m (.recurrent a) : F))
    (Cell.recurrent.inj (round.call_stateCell slot i d))

theorem read_tileCell (m : Memory F B) (i d : Fin 128) :
    m (round.fold.tileCell (foldWarpOf layer b head i) (registerOf i) d)
      = m (round.stateCell layer (round.fold.row b).linearStateSlot head i d) :=
  congrArg (fun a => (m (.recurrent a) : F))
    (Cell.recurrent.inj (round.fold_tileCell i d))

/-- Before the first column it is the state of the row's slot. -/
theorem stateAfter_zero (recurrence : Recurrence F B) (m : Memory F B)
    (i d : Fin 128) :
    round.stateAfter recurrence m layer b head 0 i d
      = m (round.stateCell layer (round.fold.row b).linearStateSlot head i
        d) := by
  rw [stateAfter, Call.after, tileAfter]
  exact @read_stateCell F B round layer b head m
    (round.fold.row b).linearStateSlot i d

end

section

variable (recurrence : Recurrence F B) (m : Memory F B)
  {recordOrders : Nat → List Warp}
  (hrecord : ∀ layer < round.geometry.layers,
    (recordOrders layer).Perm round.call.grid)

/-- The memory after the record form has run in every layer. -/
def recorded (recordOrders : Nat → List Warp) : Memory F B :=
  round.call.record recurrence round.recordCapacity round.geometry.layers
    recordOrders m

include hrecord

/-- The fold runs through the states of the record form. -/
theorem foldAfter_eq {layer b head n : Nat}
    (hlayer : layer < round.geometry.layers) (hb : b < round.rows.length)
    (hhead : head < round.geometry.valueHeads) (i : Fin 128)
    (hn : n ≤ round.call.activeColumns b) :
    tileAfter recurrence (round.fold.access (foldWarpOf layer b head i)
        (round.recorded recurrence m recordOrders)) n
      = round.call.after recurrence layer (warpOf b head i) m n := by
  have hw := round.warpOf_runs hb hhead i
  have hcoord : round.fold.coordinates (foldWarpOf layer b head i) = _ :=
    round.foldWarpOf_coordinates i
  obtain ⟨hqk, -⟩ := round.heads_eq head hhead
  refine tileAfter_congr recurrence ?_ ?_
  · funext r d
    have hstate := (record_states recurrence round.call_fits round.rows_le
      hrecord m (stateBase round.recurrentStride round.geometry.valueHeads
        layer (round.fold.row b).linearStateSlot head
        + ((i : Nat) / 16 * 16 + i % 16 / 4 * 4 + r) * 128 + d)).1
    change round.recorded recurrence m recordOrders
      (.recurrent (round.fold.stateReadBase (round.fold.coordinates _)
        + ((round.fold.coordinates _).dvBase + r) * 128 + d)) = _
    rw [hcoord]
    exact hstate
  · intro t ht
    have ht' : t < round.call.activeColumns b := by omega
    refine ⟨?_, ?_, ?_⟩
    · funext d
      have hkey := record_key recurrence round.call_fits round.rows_le hrecord
        m hlayer hw ht' d
      refine Eq.trans (congrArg (fun a => (round.recorded recurrence m
        recordOrders (.keyRecord a) : B)) ?_) hkey
      rw [hcoord]
      change ((((layer * round.recordCapacity + b) * round.width + t)
          * round.geometry.qkHeads + head / round.call.heads.groupSize) * 128
          + d : Nat)
        = layer * round.recordCapacity
          * (128 * round.geometry.qkHeads * round.width)
          + ((b * round.width + t) * round.geometry.qkHeads
            + round.call.heads.qkHead head) * 128 + d
      rw [hqk]
      ring
    · funext r
      have hvalue := record_value recurrence round.call_fits round.rows_le
        hrecord m hlayer hw ht' r
      refine Eq.trans (congrArg (fun a => (round.recorded recurrence m
        recordOrders (.valueRecord a) : B)) ?_) hvalue
      rw [hcoord]
      change ((((layer * round.recordCapacity + b) * round.width + t)
          * round.geometry.valueHeads + head) * 128
          + ((i : Nat) / 16 * 16 + i % 16 / 4 * 4) + r : Nat)
        = layer * round.recordCapacity
          * (128 * round.geometry.valueHeads * round.width)
          + ((b * round.width + t) * round.geometry.valueHeads + head) * 128
          + ((i : Nat) / 16 * 16 + i % 16 / 4 * 4) + r
      ring
    · have hgate := record_gate recurrence round.call_fits round.rows_le
        hrecord m hlayer hw ht'
      refine Eq.trans (congrArg (fun a => (round.recorded recurrence m
        recordOrders (.gateRecord a) : F × F)) ?_) hgate
      rw [hcoord]
      change (((layer * round.recordCapacity + b) * round.width + t)
          * round.geometry.valueHeads + head : Nat)
        = layer * round.recordCapacity * (round.geometry.valueHeads * round.width)
          + ((b * round.width + t) * round.geometry.valueHeads + head)
      ring

end

-- ============ the histories

/-- The history of a channel after `n` columns, one by one. -/
def decodeHistory (history : CausalConv.Window B) (column : Nat → B)
    (n : Nat) : CausalConv.Window B :=
  history.after ((List.range n).map column)

theorem decodeHistory_succ (history : CausalConv.Window B)
    (column : Nat → B) (n : Nat) : decodeHistory history column (n + 1)
      = (decodeHistory history column n).push (column n) := by
  rw [decodeHistory, range_succ, map_append, CausalConv.Window.after_append]
  rfl

/-- From three columns on nothing is left of the old history. -/
theorem decodeHistory_add_three (history : CausalConv.Window B)
    (column : Nat → B) (n : Nat) : decodeHistory history column (n + 3)
      = ⟨column n, column (n + 1), column (n + 2)⟩ := by
  rw [decodeHistory_succ, decodeHistory_succ, decodeHistory_succ]
  rfl

/-- What the fold writes is what decoding leaves. -/
theorem finalHistory_eq (m : Memory F B) (coord : Coordinates)
    (channel : Nat) {commit : Nat} (hcommit : commit ≠ 0) :
    round.fold.finalHistory m coord channel commit
      = decodeHistory
        ⟨m (.conv (round.fold.historyAt coord.layer
            (round.fold.row coord.batch).linearStateSlot channel 0)),
          m (.conv (round.fold.historyAt coord.layer
            (round.fold.row coord.batch).linearStateSlot channel 1)),
          m (.conv (round.fold.historyAt coord.layer
            (round.fold.row coord.batch).linearStateSlot channel 2))⟩
        (round.fold.recorded m coord channel) commit := by
  match commit, hcommit with
  | 1, _ => rfl
  | 2, _ => rfl
  | n + 3, _ =>
    rw [decodeHistory_add_three, Fold.finalHistory, if_neg (by omega),
      if_neg (by omega)]
    rfl

/-- Value `s` of a channel's history in a slot. -/
abbrev convCell (layer slot channel : Nat) (s : Fin 3) : Cell :=
  .conv (round.fold.historyAt layer slot channel s)

/-- The recorded value of a channel in a column. -/
def recordedColumn (m : Memory F B) (layer b channel t : Nat) : B :=
  m (.convRecord ((layer * round.recordCapacity + b) * round.width
    * round.geometry.convChannels + channel
    + t * round.geometry.convChannels))

/-- The history of a slot. -/
def historyOf (m : Memory F B) (layer slot channel : Nat) :
    CausalConv.Window B :=
  ⟨m (round.convCell layer slot channel 0),
    m (round.convCell layer slot channel 1),
    m (round.convCell layer slot channel 2)⟩

/-- The warp whose lane `channel % 32` holds a channel. -/
def convWarpOf (layer b channel : Nat) : Warp :=
  ⟨channel / 128 / 8, b, layer * 8 + channel / 128 % 8, channel % 128 / 32⟩

section

variable {layer b channel : Nat}
  (hchannel : channel < round.geometry.convChannels)

theorem convWarpOf_layer :
    (round.fold.coordinates (convWarpOf layer b channel)).layer = layer := by
  rw [Fold.layer_eq]
  change (layer * 8 + channel / 128 % 8) / 8 = layer
  omega

theorem convWarpOf_tileBlock :
    round.fold.tileBlock (convWarpOf layer b channel) = channel / 128 := by
  rw [Fold.tileBlock, Fold.stateTile_eq]
  change channel / 128 / 8 * 8 + (layer * 8 + channel / 128 % 8) % 8 = _
  omega

theorem convWarpOf_channel :
    round.fold.channelOf (convWarpOf layer b channel) (channel % 32)
      = channel := by
  rw [Fold.channelOf, convWarpOf_tileBlock]
  change channel / 128 * 128 + (channel % 128 / 32 * 32 + channel % 32) = _
  omega

theorem convWarpOf_cell (s : Fin 3) :
    round.fold.convCell (convWarpOf layer b channel) (channel % 32) s
      = round.convCell layer (round.fold.row b).linearStateSlot channel
        s := by
  rw [Fold.convCell, convWarpOf_layer, convWarpOf_channel]
  rfl

theorem read_convCell (m : Memory F B) (s : Fin 3) :
    m (round.fold.convCell (convWarpOf layer b channel) (channel % 32) s)
      = m (round.convCell layer (round.fold.row b).linearStateSlot channel s) :=
  congrArg (fun a => (m (.conv a) : B)) (Cell.conv.inj (round.convWarpOf_cell s))

include hchannel in
theorem convWarpOf_block :
    round.fold.tileBlock (convWarpOf layer b channel)
      < round.fold.geometry.convChannels / 128 := by
  have hwhole := round.fold_fits.whole
  change round.geometry.convChannels % 128 = 0 at hwhole
  rw [convWarpOf_tileBlock]
  change channel / 128 < round.geometry.convChannels / 128
  omega

include hchannel in
theorem convWarpOf_runs (hlayer : layer < round.geometry.layers)
    (hb : b < round.rows.length) :
    round.fold.Runs (convWarpOf layer b channel) := by
  have hreach := round.fold_fits.reach
  have hwhole := round.fold_fits.whole
  change round.geometry.convChannels / 128 ≤ round.geometry.valueHeads * 8
    at hreach
  change round.geometry.convChannels % 128 = 0 at hwhole
  refine ⟨?_, hb, ?_, ?_⟩
  · change channel / 128 / 8 < round.geometry.valueHeads
    omega
  · change layer * 8 + channel / 128 % 8 < round.geometry.layers * 8
    omega
  · change channel % 128 / 32 < 4
    omega

end

-- ============ the written cells

/-- The states and histories of the rows that commit columns. -/
inductive Committed (cell : Cell) : Prop where
  | state (layer b head : Nat) (i d : Fin 128)
      (hlayer : layer < round.geometry.layers) (hb : b < round.rows.length)
      (hhead : head < round.geometry.valueHeads)
      (hcommit : (round.fold.row b).commitColumns ≠ 0)
      (h : cell = round.stateCell layer
        (round.fold.row b).linearStateSlot head i d)
  | conv (layer b channel : Nat) (s : Fin 3)
      (hlayer : layer < round.geometry.layers) (hb : b < round.rows.length)
      (hchannel : channel < round.geometry.convChannels)
      (hcommit : (round.fold.row b).commitColumns ≠ 0)
      (h : cell = round.convCell layer
        (round.fold.row b).linearStateSlot channel s)

/-- They are what the warps of such rows own. -/
theorem committed_iff {cell : Cell} :
    (∃ warp, round.fold.Runs warp ∧ (round.fold.row warp.y).commitColumns ≠ 0 ∧
        round.fold.Own warp cell) ↔ round.Committed cell := by
  constructor
  · rintro ⟨warp, hw, hcommit, hown⟩
    obtain ⟨hx, hy, hz, hwarp⟩ := hw
    have hlayer : warp.z / 8 < round.geometry.layers := by
      change warp.z < round.geometry.layers * 8 at hz
      omega
    cases hown with
    | state r d hcell =>
      have hrow := tileRow_lt (Nat.mod_lt warp.z (show 0 < 8 by decide)) hwarp r
      refine .state (warp.z / 8) warp.y warp.x ⟨_, hrow⟩ d hlayer hy hx hcommit ?_
      rw [hcell, Fold.tileCell, Fold.stateReadBase, Coordinates.dvBase,
        Fold.layer_eq, Fold.stateTile_eq]
      rfl
    | conv lane s hlane hblock hcell =>
      refine .conv (warp.z / 8) warp.y (round.fold.channelOf warp lane) s
        hlayer hy (Fold.channelOf_lt round.fold_fits hwarp hlane hblock)
        hcommit ?_
      rw [hcell, Fold.convCell, Fold.layer_eq]
      rfl
  · rintro (⟨layer, b, head, i, d, hlayer, hb, hhead, hcommit, rfl⟩
      | ⟨layer, b, channel, s, hlayer, hb, hchannel, hcommit, rfl⟩)
    · exact ⟨foldWarpOf layer b head i,
        round.foldWarpOf_runs hb hhead hlayer i, hcommit,
        .state (registerOf i) d (round.fold_tileCell i d).symm⟩
    · exact ⟨convWarpOf layer b channel,
        round.convWarpOf_runs hchannel hlayer hb, hcommit,
        .conv (channel % 32) s (by omega)
          (round.convWarpOf_block hchannel) (round.convWarpOf_cell s).symm⟩

-- ============ the round

/-- The snapshot form leaves the state after a column in its slot. -/
theorem snapshot_slot (recurrence : Recurrence F B) (m : Memory F B)
    {snapshotBases : Nat → Nat}
    (hreserved : round.call.Reserved snapshotBases round.slotCount)
    {layer b head n : Nat} {order : List Warp}
    (horder : order.Perm round.call.grid) (hb : b < round.rows.length)
    (hhead : head < round.geometry.valueHeads)
    (hn : n < round.call.activeColumns b) (i d : Fin 128) :
    round.call.snapshot recurrence snapshotBases layer order m
        (round.stateCell layer (snapshotBases b + n) head i d)
      = round.stateAfter recurrence m layer b head (n + 1) i d := by
  have hslot : round.call.snapshot recurrence snapshotBases layer order m
      (round.call.stateCell layer (snapshotBases b + n) (warpOf b head i)
        (registerOf i) d)
        = round.stateAfter recurrence m layer b head (n + 1) i d :=
    snapshot_state recurrence round.call_fits hreserved horder m
      (round.warpOf_runs hb hhead i) hn (registerOf i) d
  rw [← hslot]
  exact (@read_stateCell F B round layer b head _ (snapshotBases b + n) i d).symm

section

variable (recurrence : Recurrence F B) (m : Memory F B)
  {recordOrders : Nat → List Warp}
  (hrecord : ∀ layer < round.geometry.layers,
    (recordOrders layer).Perm round.call.grid)
  {foldOrder : List Warp} (hfold : foldOrder.Perm round.fold.grid)

/-- The memory after the fold. -/
def folded (recordOrders : Nat → List Warp) (foldOrder : List Warp) :
    Memory F B :=
  run (round.fold.kernel recurrence) foldOrder
    (round.recorded recurrence m recordOrders)

include hfold

/-- A row that commits nothing keeps what its warps own. -/
theorem folded_kept {warp : Warp} (hw : round.fold.Runs warp)
    (hnone : (round.fold.row warp.y).commitColumns = 0) {cell : Cell}
    (hown : round.fold.Own warp cell) :
    round.folded recurrence m recordOrders foldOrder cell
      = round.recorded recurrence m recordOrders cell := by
  refine Fold.fold_kept recurrence round.fold_fits hfold _ ?_
  intro other hother hown'
  rw [← Fold.Own.unique round.fold_fits hw hother hown hown']
  exact hnone

include hrecord

/-- Every element of a row's state is the one after its commit. -/
theorem folded_state {layer b head : Nat}
    (hlayer : layer < round.geometry.layers) (hb : b < round.rows.length)
    (hhead : head < round.geometry.valueHeads) (i d : Fin 128) :
    round.folded recurrence m recordOrders foldOrder
        (round.stateCell layer (round.fold.row b).linearStateSlot head i d)
      = round.stateAfter recurrence m layer b head
        (round.fold.row b).commitColumns i d := by
  have hw := round.foldWarpOf_runs hb hhead hlayer i
  refine (round.read_tileCell _ i d).symm.trans ?_
  by_cases hcommit : (round.fold.row b).commitColumns = 0
  · have hkept := (record_states recurrence round.call_fits round.rows_le
      hrecord m (stateBase round.recurrentStride round.geometry.valueHeads
        layer (round.fold.row b).linearStateSlot head + i * 128 + d)).1
    refine (round.folded_kept recurrence m hfold hw hcommit
      (.state _ d rfl)).trans ((round.read_tileCell _ i d).trans ?_)
    rw [hcommit, stateAfter_zero]
    exact hkept
  · have hstate := Fold.fold_state recurrence round.fold_fits hfold
      (round.recorded recurrence m recordOrders) hw hcommit (registerOf i) d
    have hle := round.commit_le b hb
    rw [← activeColumns_eq] at hle
    have hafter := round.foldAfter_eq recurrence m hrecord hlayer hb hhead i hle
    exact hstate.trans (congrFun (congrFun hafter (registerOf i)) d)

/-- And its histories are those after the committed columns. -/
theorem folded_history {layer b channel : Nat}
    (hlayer : layer < round.geometry.layers) (hb : b < round.rows.length)
    (hchannel : channel < round.geometry.convChannels) (s : Fin 3) :
    round.folded recurrence m recordOrders foldOrder
        (round.convCell layer (round.fold.row b).linearStateSlot channel s)
      = Fold.historyValue (decodeHistory
        (round.historyOf m layer (round.fold.row b).linearStateSlot channel)
        (round.recordedColumn m layer b channel)
        (round.fold.row b).commitColumns) s := by
  have hw := round.convWarpOf_runs hchannel hlayer hb
  have hstates := fun a => record_states recurrence round.call_fits
    round.rows_le hrecord m a
  by_cases hcommit : (round.fold.row b).commitColumns = 0
  · refine (round.read_convCell _ s).symm.trans ?_
    refine (round.folded_kept recurrence m hfold hw hcommit (.conv _ s
      (Nat.mod_lt _ (by decide)) (round.convWarpOf_block hchannel)
      rfl)).trans ((round.read_convCell _ s).trans ((hstates _).2.1.trans ?_))
    rw [hcommit]
    match s with
    | 0 => rfl
    | 1 => rfl
    | 2 => rfl
  · have hconv := Fold.fold_conv recurrence round.fold_fits hfold
      (round.recorded recurrence m recordOrders) hw hcommit
      (round.convWarpOf_block hchannel)
      (Nat.mod_lt channel (show 0 < 32 by decide)) s
    have hfinal := round.finalHistory_eq
      (round.recorded recurrence m recordOrders)
      (round.fold.coordinates (convWarpOf layer b channel)) channel hcommit
    rw [convWarpOf_layer] at hfinal
    rw [convWarpOf_channel] at hconv
    refine (round.read_convCell _ s).symm.trans (hconv.trans
      ((congrArg (Fold.historyValue · s) hfinal).trans ?_))
    -- The old histories and the recorded columns are as before the record.
    have hold : ∀ s, round.recorded recurrence m recordOrders
        (round.convCell layer (round.fold.row b).linearStateSlot channel s)
          = m (round.convCell layer (round.fold.row b).linearStateSlot
            channel s) := fun s => (hstates _).2.1
    have hcolumn : round.fold.recorded (round.recorded recurrence m recordOrders)
        (round.fold.coordinates (convWarpOf layer b channel)) channel
          = round.recordedColumn m layer b channel := by
      funext t
      rw [Fold.recorded, Fold.recordOuter, convWarpOf_layer]
      exact (hstates _).2.2
    have hhistory : round.historyOf
        (round.recorded recurrence m recordOrders) layer
        (round.fold.row b).linearStateSlot channel
          = round.historyOf m layer (round.fold.row b).linearStateSlot
            channel := by
      rw [historyOf, historyOf, hold, hold, hold]
    rw [hcolumn]
    exact congrArg (fun history => Fold.historyValue (decodeHistory history
      (round.recordedColumn m layer b channel)
      (round.fold.row b).commitColumns) s) hhistory

end

/-- The replay fold commits exactly the accepted prefix. The record form
changes no state and writes the outputs of the snapshot form. The fold
then leaves every row with the state after its committed columns (the
snapshot of the last of them, the old state if there is none) and with
the convolution history of decoding them one by one. It writes every
element of a committed row once and nothing else. The warps of each
launch may run in any order. -/
theorem gdn_replay_commits_accepted_prefix (recurrence : Recurrence F B)
    (m : Memory F B) {recordOrders : Nat → List Warp}
    (hrecord : ∀ layer < round.geometry.layers,
      (recordOrders layer).Perm round.call.grid)
    {snapshotBases : Nat → Nat}
    (hreserved : round.call.Reserved snapshotBases round.slotCount)
    {snapshotOrders : Nat → List Warp}
    (hsnapshot : ∀ layer < round.geometry.layers,
      (snapshotOrders layer).Perm round.call.grid)
    {foldOrder : List Warp} (hfold : foldOrder.Perm round.fold.grid) :
    ∃ recorded snapshot folded,
      recorded = round.call.record recurrence round.recordCapacity
        round.geometry.layers recordOrders m ∧
      snapshot = (fun layer => round.call.snapshot recurrence snapshotBases
        layer (snapshotOrders layer) m) ∧
      gdnReplayFold recurrence round.recordSpec round.statesView
        round.foldRows foldOrder recorded = .ok folded ∧
      (∀ a, recorded (.recurrent a) = m (.recurrent a) ∧
        recorded (.conv a) = m (.conv a)) ∧
      (∀ layer < round.geometry.layers, ∀ a,
        recorded (.out layer a) = snapshot layer (.out layer a)) ∧
      (∀ layer < round.geometry.layers, ∀ b < round.rows.length,
        (∀ head < round.geometry.valueHeads, ∀ i d,
          round.stateAt folded layer (round.fold.row b).linearStateSlot head i d
            = round.stateAfter recurrence m layer b head
              (round.fold.row b).commitColumns i d ∧
          ((round.fold.row b).commitColumns = 0 →
            round.stateAt folded layer (round.fold.row b).linearStateSlot head i d
              = round.stateAt m layer (round.fold.row b).linearStateSlot
                head i d) ∧
          ((round.fold.row b).commitColumns ≠ 0 →
            round.stateAt folded layer (round.fold.row b).linearStateSlot head i d
              = round.stateAt (snapshot layer) layer
                (snapshotBases b + ((round.fold.row b).commitColumns - 1))
                head i d)) ∧
        ∀ channel < round.geometry.convChannels,
          round.historyOf folded layer (round.fold.row b).linearStateSlot channel
            = decodeHistory
              (round.historyOf m layer (round.fold.row b).linearStateSlot channel)
              (round.recordedColumn m layer b channel)
              (round.fold.row b).commitColumns) ∧
      (Fold.targets recurrence round.fold foldOrder recorded).Nodup ∧
      (∀ cell, cell ∈ Fold.targets recurrence round.fold foldOrder recorded ↔
        round.Committed cell) ∧
      ∀ cell, ¬ round.Committed cell → folded cell = recorded cell := by
  refine ⟨_, _, round.folded recurrence m recordOrders foldOrder, rfl, rfl,
    round.gdnReplayFold_eq recurrence foldOrder _, ?_, ?_, ?_, ?_, ?_, ?_⟩
  · intro a
    obtain ⟨hrecurrent, hconv, -⟩ := record_states recurrence round.call_fits
      round.rows_le hrecord m a
    exact ⟨hrecurrent, hconv⟩
  · intro layer hlayer a
    exact record_out recurrence round.call_fits round.rows_le hrecord m
      hreserved hlayer (hsnapshot layer hlayer) a
  · intro layer hlayer b hb
    refine ⟨?_, ?_⟩
    · intro head hhead i d
      have hstate : round.stateAt (round.folded recurrence m recordOrders
          foldOrder) layer (round.fold.row b).linearStateSlot head i d = _ :=
        round.folded_state recurrence m hrecord hfold hlayer hb hhead i d
      refine ⟨hstate, ?_, ?_⟩
      · intro hnone
        rw [hstate, hnone, stateAfter_zero]
        rfl
      · intro hsome
        have hle := round.commit_le b hb
        rw [← activeColumns_eq] at hle
        change (round.fold.row b).commitColumns ≤ _ at hle
        obtain ⟨n, hn⟩ := Nat.exists_eq_succ_of_ne_zero hsome
        rw [hn] at hle
        rw [hstate, hn, Nat.succ_sub_one]
        exact (round.snapshot_slot recurrence m hreserved
          (hsnapshot layer hlayer) hb hhead hle i d).symm
    · intro channel hchannel
      have hhistory := round.folded_history recurrence m hrecord hfold hlayer
        hb hchannel
      exact CausalConv.Window.ext (hhistory 0) (hhistory 1) (hhistory 2)
  · exact Fold.targets_nodup recurrence round.fold_fits hfold _
  · intro cell
    rw [Fold.mem_targets recurrence hfold, committed_iff]
  · intro cell hother
    refine Fold.fold_kept recurrence round.fold_fits hfold _ ?_
    intro warp hw hown
    by_contra hcommit
    exact hother (round.committed_iff.mp ⟨warp, hw, hcommit, hown⟩)

/-- Two rows of two columns: one commits the first, the other both. -/
def firstAndBoth : Round Nat Nat :=
  { geometry := foldGeometry30x32
    registered := .inr rfl
    recordCapacity := 2
    capacity_le := Nat.le_add_left 2 6
    width := 2
    width_ge := le_refl _
    width_le := by decide
    slotCount := 6
    recurrentStride := 6 * (32 * 128 * 128)
    recurrent_fits := le_refl _
    convStride := 6 * (3 * 8192)
    conv_fits := le_refl _
    rows := [⟨0, 1⟩, ⟨1, 2⟩]
    rows_pos := cons_ne_nil _ _
    rows_le := by decide
    slots_lt := by decide
    slots_distinct := by decide
    validColumns := none
    inputs := fun layer => ⟨(· + layer), (2 * ·), (3 * · + 1), id, fun _ => 2⟩
    valid := by decide
    commit_le := by decide }

/-- The delta rule without its normalisation, on naturals. -/
def plainRecurrence : Recurrence Nat Nat :=
  { transition := fun key value gate tile r d =>
      gate.1 * tile r d + gate.2 * (value r * key d)
    readout := fun tile query r =>
      ((List.finRange 128).map fun d => tile r d * query d).sum
    zero := 0 }

/-- Every element holds its address. -/
def addressMemory : Memory Nat Nat
  | .recurrent a | .conv a | .keyRecord a | .valueRecord a | .convRecord a
  | .out _ a => a
  | .gateRecord a => (a, a)

/-- One state is the snapshot of the first column, one that of the
second. -/
theorem gdn_replay_commits_accepted_prefix_first :
    ∃ folded snapshot : Memory Nat Nat,
      snapshot = firstAndBoth.call.snapshot plainRecurrence
        (fun b => 2 + 2 * b) 7 firstAndBoth.call.grid addressMemory ∧
      gdnReplayFold plainRecurrence firstAndBoth.recordSpec
        firstAndBoth.statesView firstAndBoth.foldRows firstAndBoth.fold.grid
        (firstAndBoth.call.record plainRecurrence firstAndBoth.recordCapacity
          firstAndBoth.geometry.layers (fun _ => firstAndBoth.call.grid)
          addressMemory) = .ok folded ∧
      ∀ i d,
        firstAndBoth.stateAt folded 7 0 5 i d
          = firstAndBoth.stateAt snapshot 7 2 5 i d ∧
        firstAndBoth.stateAt folded 7 1 5 i d
          = firstAndBoth.stateAt snapshot 7 5 5 i d := by
  have hreserved : firstAndBoth.call.Reserved (fun b => 2 + 2 * b)
      firstAndBoth.slotCount :=
    { inside := by decide
      disjoint := by decide
      initial := by decide }
  have hgrid : ∀ layer < firstAndBoth.geometry.layers,
      ((fun _ => firstAndBoth.call.grid : Nat → List Warp) layer).Perm
        firstAndBoth.call.grid := fun _ _ => List.Perm.refl _
  have hround := firstAndBoth.gdn_replay_commits_accepted_prefix plainRecurrence
    addressMemory hgrid hreserved hgrid (List.Perm.refl _)
  obtain ⟨recorded, snapshot, folded, hrecorded, hsnapshot, hrest⟩ := hround
  have hok := hrest.1
  have hrows := hrest.2.2.2.1
  rw [hrecorded] at hok
  refine ⟨folded, snapshot 7, ?_, hok, ?_⟩
  · rw [hsnapshot]
  · intro i d
    have hfirst := (hrows 7 (by decide) 0 (by decide)).1 5 (by decide) i d
    have hboth := (hrows 7 (by decide) 1 (by decide)).1 5 (by decide) i d
    exact ⟨hfirst.2.2 (by decide), hboth.2.2 (by decide)⟩

end Round

end Ginfer.Ops.GdnReplay
