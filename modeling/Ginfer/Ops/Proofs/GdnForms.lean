/-
The snapshot and the record form, warp by warp.

Both write the same outputs (`outValue`): the readout of the state after
each valid column and zero behind them. The snapshot form leaves the state
after a column in the column's slot (`snapshot_state`); the record form
leaves the states alone and copies its inputs into the records of the
layer (`record_key`, `record_value`, `record_gate`).
-/
import Ginfer.Ops.Proofs.GdnReplay
import Mathlib.Tactic.Ring

namespace Ginfer.Ops.GdnReplay

open Ginfer.Lib List
open Ginfer.Lib.Launch

section

variable {F B : Type} (recurrence : Recurrence F B) (call : Call F B)

-- ============ the cells

/-- The output of register row `r` for a column. -/
abbrev Call.outCell (layer : Nat) (warp : Warp) (t : Nat) (r : Fin 4) :
    Cell :=
  .out layer (((warp.y * call.width + t) * call.heads.valueHeads + warp.x)
    * 128 + (warp.z * 16 + warp.warp * 4) + r)

/-- An element of a warp's tile in a slot. -/
abbrev Call.stateCell (layer slot : Nat) (warp : Warp) (r : Fin 4)
    (d : Fin 128) : Cell :=
  .recurrent (stateBase call.recurrentStride call.heads.valueHeads layer slot
    warp.x + (warp.z * 16 + warp.warp * 4 + r) * 128 + d)

/-- What the callers of both forms see to. -/
structure Call.Fits (slots : Nat) : Prop where
  active : ∀ b < call.rows,
    0 < call.activeColumns b ∧ call.activeColumns b ≤ call.width
  initial : ∀ b < call.rows, call.initialSlots b < slots
  stride : slots * (call.heads.valueHeads * 128 * 128) ≤ call.recurrentStride
  heads : ∀ h < call.heads.valueHeads,
    call.heads.qkHead h = h / call.heads.groupSize ∧
      h / call.heads.groupSize < call.heads.qkHeads

/-- A warp of the launch of both forms. -/
def Call.Runs (warp : Warp) : Prop :=
  InGrid call.heads.valueHeads call.rows 8 warp

variable {warp warp' : Warp} {layer layer' t t' : Nat}

variable {call} in
theorem outCell_inj {r r' : Fin 4} (hw : call.Runs warp) (hw' : call.Runs warp')
    (ht : t < call.width) (ht' : t' < call.width)
    (h : call.outCell layer warp t r = call.outCell layer' warp' t' r') :
    layer = layer' ∧ warp = warp' ∧ t = t' ∧ r = r' := by
  obtain ⟨hx, -, hz, hwarp⟩ := hw
  obtain ⟨hx', -, hz', hwarp'⟩ := hw'
  injection h with hlayer haddress
  rw [Nat.add_assoc (_ * 128), Nat.add_assoc (_ * 128)] at haddress
  obtain ⟨hhead, hrow⟩ := digits_inj (tileRow_lt hz hwarp r)
    (tileRow_lt hz' hwarp' r') haddress
  obtain ⟨hy, ht, hx⟩ := head_inj ht ht' hx hx' hhead
  obtain ⟨hz, hwarp, hr⟩ := tileRow_inj hwarp hwarp' hrow
  exact ⟨hlayer, Warp.ext hx hy hz hwarp, ht, hr⟩

variable {call} in
theorem stateCell_inj {slots layer layer' slot slot' : Nat}
    {r r' : Fin 4} {d d' : Fin 128}
    (hfits : call.Fits slots) (hw : call.Runs warp) (hw' : call.Runs warp')
    (hslot : slot < slots) (hslot' : slot' < slots)
    (h : call.stateCell layer slot warp r d
      = call.stateCell layer' slot' warp' r' d') :
    layer = layer' ∧ slot = slot' ∧ warp.x = warp'.x ∧ warp.z = warp'.z ∧
      warp.warp = warp'.warp ∧ r = r' ∧ d = d' := by
  obtain ⟨hx, -, hz, hwarp⟩ := hw
  obtain ⟨hx', -, hz', hwarp'⟩ := hw'
  injection h with haddress
  obtain ⟨hlayer, hslot, hhead, hrow, hd⟩ := state_inj hfits.stride hslot
    hslot' hx hx' (tileRow_lt hz hwarp r) (tileRow_lt hz' hwarp' r') d.isLt
    d'.isLt haddress
  obtain ⟨hz, hwarp, hr⟩ := tileRow_inj hwarp hwarp' hrow
  exact ⟨hlayer, hslot, hhead, hz, hwarp, hr, Fin.ext hd⟩

-- ============ the stores

/-- The warp's state after `n` columns. -/
def Call.after (layer : Nat) (warp : Warp) (m : Memory F B) (n : Nat) : Tile F :=
  tileAfter recurrence (call.access recurrence layer warp m) n

/-- The output of a column. -/
def Call.outValue (layer : Nat) (warp : Warp) (m : Memory F B) (t : Nat)
    (r : Fin 4) : B :=
  if t < call.activeColumns warp.y then
    recurrence.readout (call.after recurrence layer warp m (t + 1))
      (fun d => (call.inputs layer).q (((warp.y * call.width + t)
        * call.heads.qkHeads + call.heads.qkHead warp.x) * 128 + d)) r
  else recurrence.zero

/-- Policies with the same loads run through the same states. -/
theorem tileAfter_congr {access access' : Access F B}
    (hinitial : access.initial = access'.initial) {n : Nat}
    (hcolumns : ∀ t < n, access.key t = access'.key t ∧
      access.value t = access'.value t ∧ access.gate t = access'.gate t) :
    tileAfter recurrence access n = tileAfter recurrence access' n := by
  induction n with
  | zero => exact hinitial
  | succ n ih =>
    obtain ⟨hkey, hvalue, hgate⟩ := hcolumns n (by omega)
    rw [tileAfter, tileAfter, hkey, hvalue, hgate,
      ih fun t ht => hcolumns t (by omega)]

section

variable {layer : Nat} {warp : Warp} {m : Memory F B}
  {write : (cell : Cell) × Content F B cell}

/-- The outputs of the valid columns and of the tail. -/
theorem mem_outs {slots : Nat} (hfits : call.Fits slots) (hw : call.Runs warp) :
    ((∃ t < call.activeColumns warp.y, ∃ r : Fin 4, write
        = ⟨call.outCell layer warp t r,
        call.outValue recurrence layer warp m t r⟩) ∨
      write ∈ (call.access recurrence layer warp m).finish
        (call.after recurrence layer warp m (call.activeColumns warp.y))) ↔
      ∃ t < call.width, ∃ r : Fin 4, write = ⟨call.outCell layer warp t r,
        call.outValue recurrence layer warp m t r⟩ := by
  have hactive := (hfits.active warp.y hw.2.1).2
  have hfinish : write ∈ (call.access recurrence layer warp m).finish
      (call.after recurrence layer warp m (call.activeColumns warp.y)) ↔
      ∃ t, call.activeColumns warp.y ≤ t ∧ t < call.width ∧ ∃ r : Fin 4,
        write = ⟨call.outCell layer warp t r, recurrence.zero⟩ := by
    change write ∈ List.map _ _ ↔ _
    rw [mem_map]
    simp only [Prod.exists, mem_product, mem_range'_1, mem_finRange, and_true]
    constructor
    · rintro ⟨t, r, ⟨hle, hlt⟩, rfl⟩
      change call.activeColumns warp.y ≤ t at hle
      change t < call.activeColumns warp.y
        + (call.width - call.activeColumns warp.y) at hlt
      exact ⟨t, hle, by omega, r, rfl⟩
    · rintro ⟨t, hle, hlt, r, rfl⟩
      refine ⟨t, r, ⟨hle, ?_⟩, rfl⟩
      change t < call.activeColumns warp.y
        + (call.width - call.activeColumns warp.y)
      omega
  rw [hfinish]
  constructor
  · rintro (⟨t, ht, r, rfl⟩ | ⟨t, hle, hlt, r, rfl⟩)
    · exact ⟨t, by omega, r, rfl⟩
    · refine ⟨t, hlt, r, ?_⟩
      rw [Call.outValue, if_neg (by omega)]
  · rintro ⟨t, ht, r, rfl⟩
    by_cases hvalid : t < call.activeColumns warp.y
    · exact .inl ⟨t, hvalid, r, rfl⟩
    · refine .inr ⟨t, by omega, ht, r, ?_⟩
      rw [Call.outValue, if_neg hvalid]

/-- The readout of a valid column. -/
theorem mem_readout {t : Nat} (ht : t < call.activeColumns warp.y) :
    write ∈ (call.access recurrence layer warp m).publish t
        (call.after recurrence layer warp m (t + 1)) ↔
      ∃ r : Fin 4, write = ⟨call.outCell layer warp t r,
        call.outValue recurrence layer warp m t r⟩ := by
  change write ∈ List.map _ _ ↔ _
  rw [mem_map]
  simp only [mem_finRange, true_and, Call.outValue, if_pos ht]
  constructor
  · rintro ⟨r, rfl⟩
    exact ⟨r, rfl⟩
  · rintro ⟨r, rfl⟩
    exact ⟨r, rfl⟩

/-- What a warp of the snapshot form stores. -/
theorem mem_snapshotKernel {slots : Nat} (hfits : call.Fits slots)
    (hw : call.Runs warp) {bases : Nat → Nat} :
    write ∈ call.snapshotKernel recurrence bases layer warp m ↔
      (∃ t < call.width, ∃ r : Fin 4, write = ⟨call.outCell layer warp t r,
        call.outValue recurrence layer warp m t r⟩) ∨
      ∃ t < call.activeColumns warp.y, ∃ (r : Fin 4) (d : Fin 128), write
        = ⟨call.stateCell layer (bases warp.y + t) warp r d,
        call.after recurrence layer warp m (t + 1) r d⟩ := by
  have hafter : ∀ n, tileAfter recurrence
      (call.snapshotAccess recurrence bases layer warp m) n
        = call.after recurrence layer warp m n := by
    intro n
    refine tileAfter_congr recurrence ?_ ?_
    · rfl
    · exact fun t _ => ⟨rfl, rfl, rfl⟩
  rw [Call.snapshotKernel, mem_recurrentBody _ _ (hfits.active warp.y hw.2.1).1]
  simp only [hafter]
  rw [← mem_outs recurrence call hfits hw]
  constructor
  · rintro (⟨t, -, hnone⟩ | ⟨t, -, hnone⟩ | ⟨t, -, hnone⟩ | ⟨t, ht, hpublish⟩
      | hfinish)
    · cases hnone
    · cases hnone
    · cases hnone
    · rcases mem_append.mp hpublish with hout | hstate
      · exact .inl (.inl ⟨t, ht, (mem_readout recurrence call ht).mp hout⟩)
      · exact .inr ⟨t, ht, mem_storeTile.mp hstate⟩
    · exact .inl (.inr hfinish)
  · rintro ((⟨t, ht, hout⟩ | hfinish) | ⟨t, ht, hstate⟩)
    · exact .inr (.inr (.inr (.inl ⟨t, ht, mem_append_left _
        ((mem_readout recurrence call ht).mpr hout)⟩)))
    · exact .inr (.inr (.inr (.inr hfinish)))
    · exact .inr (.inr (.inr (.inl ⟨t, ht, mem_append_right _
        (mem_storeTile.mpr hstate)⟩)))

end

variable {warp : Warp}

/-- A warp sees of the memory its tile only. -/
theorem access_congr {layer : Nat} {m m' : Memory F B}
    (h : ∀ (r : Fin 4) (d : Fin 128),
      m (call.stateCell layer (call.initialSlots warp.y) warp r d)
        = m' (call.stateCell layer (call.initialSlots warp.y) warp r d)) :
    call.access recurrence layer warp m
      = call.access recurrence layer warp m' := by
  have htile : (call.access recurrence layer warp m).initial
      = (call.access recurrence layer warp m').initial := by
    funext r d
    exact h r d
  unfold Call.access at htile ⊢
  dsimp only at htile ⊢
  rw [htile]

-- ============ the snapshot

/-- The slots reserved for the snapshots of each row. -/
structure Call.Reserved (snapshotBases : Nat → Nat) (slots : Nat) : Prop where
  inside : ∀ b < call.rows, snapshotBases b + call.width ≤ slots
  disjoint : ∀ b < call.rows, ∀ b' < call.rows, b ≠ b' →
    ∀ t < call.width, ∀ t' < call.width,
      snapshotBases b + t ≠ snapshotBases b' + t'
  initial : ∀ b < call.rows, ∀ b' < call.rows, b ≠ b' →
    ∀ t < call.width, snapshotBases b + t ≠ call.initialSlots b'

variable {call} {slots : Nat} (hfits : call.Fits slots)
include hfits

theorem snapshot_apart {bases : Nat → Nat} (hreserved : call.Reserved bases
    slots) (layer : Nat) :
    Apart (call.snapshotKernel recurrence bases layer) call.Runs
      (fun warp cell => ∃ (r : Fin 4) (d : Fin 128),
        cell = call.stateCell layer (call.initialSlots warp.y) warp r d)
      (fun warp cell =>
        (∃ t < call.width, ∃ r : Fin 4, cell = call.outCell layer warp t r) ∨
        ∃ t < call.width, ∃ (r : Fin 4) (d : Fin 128),
        cell = call.stateCell layer (bases warp.y + t) warp r d) where
  sees := by
    intro warp m m' _ hsame
    have haccess := access_congr recurrence call fun r d =>
      hsame _ ⟨r, d, rfl⟩
    rw [Call.snapshotKernel, Call.snapshotKernel, Call.snapshotAccess,
      Call.snapshotAccess, haccess]
  inside := by
    intro warp m write hw hwrite
    have hactive := (hfits.active warp.y hw.2.1).2
    rcases (mem_snapshotKernel recurrence call hfits hw).mp hwrite with
      ⟨t, ht, r, rfl⟩ | ⟨t, ht, r, d, rfl⟩
    · exact .inl ⟨t, ht, r, rfl⟩
    · exact .inr ⟨t, by omega, r, d, rfl⟩
  unread := by
    rintro warp warp' cell hw hw' hne (⟨t, -, r, rfl⟩ | ⟨t, ht, r, d, rfl⟩)
    · rintro ⟨r', d', hsame⟩
      cases hsame
    · rintro ⟨r', d', hsame⟩
      have hinside := hreserved.inside warp'.y hw'.2.1
      obtain ⟨-, hslot, hx, hz, hwarp, -, -⟩ := stateCell_inj hfits hw' hw
        (by omega) (hfits.initial warp.y hw.2.1) hsame
      by_cases hy : warp'.y = warp.y
      · exact hne (Warp.ext hx hy hz hwarp).symm
      · exact hreserved.initial warp'.y hw'.2.1 warp.y hw.2.1 hy t ht hslot
  alone := by
    rintro warp warp' cell hw hw' hne (⟨t, ht, r, rfl⟩ | ⟨t, ht, r, d, rfl⟩)
    · rintro (⟨t', ht', r', hsame⟩ | ⟨t', ht', r', d', hsame⟩)
      · exact hne (outCell_inj hw' hw ht ht' hsame).2.1.symm
      · cases hsame
    · rintro (⟨t', ht', r', hsame⟩ | ⟨t', ht', r', d', hsame⟩)
      · cases hsame
      · have hinside := hreserved.inside warp'.y hw'.2.1
        have hinside' := hreserved.inside warp.y hw.2.1
        obtain ⟨-, hslot, hx, hz, hwarp, -, -⟩ := stateCell_inj hfits hw' hw
          (by omega) (by omega) hsame
        by_cases hy : warp'.y = warp.y
        · exact hne (Warp.ext hx hy hz hwarp).symm
        · exact hreserved.disjoint warp'.y hw'.2.1 warp.y hw.2.1 hy t ht t'
            ht' hslot

section

variable {bases : Nat → Nat} (hreserved : call.Reserved bases slots)
  {layer : Nat} {order : List Warp} (horder : order.Perm call.grid)
  (m : Memory F B)
include hreserved horder

omit hfits hreserved in
theorem order_runs : (∀ warp ∈ order, call.Runs warp) ∧ order.Nodup ∧
    ∀ warp, call.Runs warp → warp ∈ order := by
  refine ⟨?_, horder.nodup_iff.mpr (grid_nodup _ _ _), ?_⟩
  · intro warp hwarp
    exact mem_grid.mp (horder.mem_iff.mp hwarp)
  · intro warp hwarp
    exact horder.mem_iff.mpr (mem_grid.mpr hwarp)

/-- The outputs of the snapshot form. -/
theorem snapshot_out (hw : call.Runs warp) {t : Nat}
    (ht : t < call.width) (r : Fin 4) :
    call.snapshot recurrence bases layer order m (call.outCell layer warp t r)
      = call.outValue recurrence layer warp m t r := by
  obtain ⟨hall, hnodup, hmem⟩ := order_runs horder
  rw [Call.snapshot, run_of_writes (snapshot_apart recurrence hfits hreserved
    layer) hall hnodup (hmem warp hw) (.inl ⟨t, ht, r, rfl⟩)]
  refine commit_of_mem ((mem_snapshotKernel recurrence call hfits hw).mpr
    (.inl ⟨t, ht, r, rfl⟩)) ?_
  intro write hwrite hcell
  rcases (mem_snapshotKernel recurrence call hfits hw).mp hwrite with
    ⟨t', ht', r', rfl⟩ | ⟨t', ht', r', d', rfl⟩
  · obtain ⟨-, -, rfl, rfl⟩ := outCell_inj hw hw ht' ht hcell
    rfl
  · cases hcell

/-- Column `t` leaves its state in the slot of the column. -/
theorem snapshot_state (hw : call.Runs warp) {t : Nat}
    (ht : t < call.activeColumns warp.y) (r : Fin 4) (d : Fin 128) :
    call.snapshot recurrence bases layer order m
        (call.stateCell layer (bases warp.y + t) warp r d)
      = call.after recurrence layer warp m (t + 1) r d := by
  obtain ⟨hall, hnodup, hmem⟩ := order_runs horder
  have hactive := (hfits.active warp.y hw.2.1).2
  have hinside := hreserved.inside warp.y hw.2.1
  rw [Call.snapshot, run_of_writes (snapshot_apart recurrence hfits hreserved
    layer) hall hnodup (hmem warp hw)
    (.inr ⟨t, by omega, r, d, rfl⟩)]
  refine commit_of_mem ((mem_snapshotKernel recurrence call hfits hw).mpr
    (.inr ⟨t, ht, r, d, rfl⟩)) ?_
  intro write hwrite hcell
  rcases (mem_snapshotKernel recurrence call hfits hw).mp hwrite with
    ⟨t', ht', r', rfl⟩ | ⟨t', ht', r', d', rfl⟩
  · cases hcell
  · obtain ⟨-, hslot, -, -, -, rfl, rfl⟩ := stateCell_inj hfits hw hw
      (by omega) (by omega) hcell
    have hsame : t' = t := by omega
    subst hsame
    rfl

/-- Outputs of other layers, and past the rows, are left alone. -/
theorem snapshot_kept {a : Nat}
    (h : ∀ warp, call.Runs warp → ∀ t < call.width, ∀ r : Fin 4,
      Cell.out layer a ≠ call.outCell layer warp t r) :
    call.snapshot recurrence bases layer order m (.out layer a)
      = m (.out layer a) := by
  obtain ⟨hall, -, -⟩ := order_runs horder
  rw [Call.snapshot, run_of_not_writes (snapshot_apart recurrence hfits
    hreserved layer) hall]
  rintro warp hwarp (⟨t, ht, r, hcell⟩ | ⟨t, ht, r, d, hcell⟩)
  · exact h warp (hall warp hwarp) t ht r hcell
  · cases hcell

end

-- ============ the record

omit hfits in
/-- A record's element has one layer, row, column, head and place. -/
theorem record_inj {capacity width heads size : Nat}
    {layer layer' b b' t t' head head' e e' : Nat}
    (hb : b < capacity) (hb' : b' < capacity) (ht : t < width)
    (ht' : t' < width) (hhead : head < heads) (hhead' : head' < heads)
    (he : e < size) (he' : e' < size)
    (h : layer * capacity * (size * heads * width)
        + ((b * width + t) * heads + head) * size + e
      = layer' * capacity * (size * heads * width)
        + ((b' * width + t') * heads + head') * size + e') :
    layer = layer' ∧ b = b' ∧ t = t' ∧ head = head' ∧ e = e' := by
  have hflat : ∀ layer b t head e : Nat,
      layer * capacity * (size * heads * width)
          + ((b * width + t) * heads + head) * size + e
        = (((layer * capacity + b) * width + t) * heads + head) * size
          + e := by
    intro layer b t head e
    ring
  rw [hflat, hflat] at h
  obtain ⟨hcolumn, he⟩ := digits_inj he he' h
  obtain ⟨hrow, ht, hhead⟩ := head_inj ht ht' hhead hhead' hcolumn
  obtain ⟨hlayer, hb⟩ := digits_inj hb hb' hrow
  exact ⟨hlayer, hb, ht, hhead, he⟩

/-- The element of a key, of a value and of a gate in the records. -/
abbrev Call.keyCell (call : Call F B) (capacity layer b t qk : Nat)
    (d : Fin 128) : Cell :=
  .keyRecord (layer * capacity * (128 * call.heads.qkHeads * call.width)
    + ((b * call.width + t) * call.heads.qkHeads + qk) * 128 + d)

abbrev Call.valueCell (call : Call F B) (capacity layer : Nat) (warp : Warp)
    (t : Nat) (r : Fin 4) : Cell :=
  .valueRecord (layer * capacity * (128 * call.heads.valueHeads * call.width)
    + ((warp.y * call.width + t) * call.heads.valueHeads + warp.x) * 128
    + (warp.z * 16 + warp.warp * 4) + r)

abbrev Call.gateCell (call : Call F B) (capacity layer : Nat) (warp : Warp)
    (t : Nat) : Cell :=
  .gateRecord (layer * capacity * (call.heads.valueHeads * call.width)
    + ((warp.y * call.width + t) * call.heads.valueHeads + warp.x))

/-- Whether a warp stores its head's gates. -/
abbrev First (warp : Warp) : Prop := warp.z = 0 ∧ warp.warp = 0

/-- Whether it stores the keys of its group, too. -/
abbrev Call.Leads (call : Call F B) (warp : Warp) : Prop :=
  warp.z = 0 ∧ warp.warp = 0 ∧ warp.x % call.heads.groupSize = 0

/-- What a warp of the record form stores. -/
theorem mem_recordKernel {capacity layer : Nat}
    {m : Memory F B} {write : (cell : Cell) × Content F B cell}
    (hw : call.Runs warp) :
    write ∈ call.recordKernel recurrence capacity layer warp m ↔
      (∃ t < call.width, ∃ r : Fin 4, write = ⟨call.outCell layer warp t r,
        call.outValue recurrence layer warp m t r⟩) ∨
      (∃ t < call.activeColumns warp.y, ∃ r : Fin 4, write
        = ⟨call.valueCell capacity layer warp t r,
        (call.access recurrence layer warp m).value t r⟩) ∨
      (First warp ∧ ∃ t < call.activeColumns warp.y, write
        = ⟨call.gateCell capacity layer warp t,
        (call.access recurrence layer warp m).gate t⟩) ∨
      (call.Leads warp ∧ ∃ t < call.activeColumns warp.y, ∃ d : Fin 128,
        write = ⟨call.keyCell capacity layer warp.y t
            (call.heads.qkHead warp.x) d,
          (call.access recurrence layer warp m).key t d⟩) := by
  have hafter : ∀ n, tileAfter recurrence
      (call.recordAccess recurrence capacity layer warp m) n
        = call.after recurrence layer warp m n := by
    intro n
    refine tileAfter_congr recurrence ?_ ?_
    · rfl
    · exact fun t _ => ⟨rfl, rfl, rfl⟩
  have hkey : ∀ t, write ∈ (call.recordAccess recurrence capacity layer warp
      m).storeKey t ((call.recordAccess recurrence capacity layer warp
        m).key t) ↔ call.Leads warp ∧ ∃ d : Fin 128, write
      = ⟨call.keyCell capacity layer warp.y t (call.heads.qkHead warp.x) d,
        (call.access recurrence layer warp m).key t d⟩ := by
    intro t
    change write ∈ (if call.Leads warp then _ else _) ↔ _
    by_cases hleads : call.Leads warp
    · rw [if_pos hleads, mem_map]
      constructor
      · rintro ⟨d, -, rfl⟩
        exact ⟨hleads, d, rfl⟩
      · rintro ⟨-, d, rfl⟩
        exact ⟨d, mem_finRange d, rfl⟩
    · rw [if_neg hleads]
      constructor
      · intro hnone
        cases hnone
      · exact fun h => absurd h.1 hleads
  have hvalue : ∀ t, write ∈ (call.recordAccess recurrence capacity layer
      warp m).storeValue t ((call.recordAccess recurrence capacity layer warp
        m).value t) ↔ ∃ r : Fin 4, write
      = ⟨call.valueCell capacity layer warp t r,
        (call.access recurrence layer warp m).value t r⟩ := by
    intro t
    change write ∈ List.map _ _ ↔ _
    rw [mem_map]
    constructor
    · rintro ⟨r, -, rfl⟩
      exact ⟨r, rfl⟩
    · rintro ⟨r, rfl⟩
      exact ⟨r, mem_finRange r, rfl⟩
  have hgate : ∀ t, write ∈ (call.recordAccess recurrence capacity layer
      warp m).storeGate t ((call.recordAccess recurrence capacity layer warp
        m).gate t) ↔ First warp ∧ write
      = ⟨call.gateCell capacity layer warp t,
        (call.access recurrence layer warp m).gate t⟩ := by
    intro t
    change write ∈ (if First warp then _ else _) ↔ _
    by_cases hfirst : First warp
    · rw [if_pos hfirst, mem_singleton]
      exact ⟨fun h => ⟨hfirst, h⟩, fun h => h.2⟩
    · rw [if_neg hfirst]
      constructor
      · intro hnone
        cases hnone
      · exact fun h => absurd h.1 hfirst
  rw [Call.recordKernel, mem_recurrentBody _ _ (hfits.active warp.y hw.2.1).1]
  simp only [hafter, hkey, hvalue, hgate]
  rw [← mem_outs recurrence call hfits hw]
  constructor
  · rintro (⟨t, ht, hleads, d, rfl⟩ | ⟨t, ht, r, rfl⟩ | ⟨t, ht, hfirst, rfl⟩
      | ⟨t, ht, hpublish⟩ | hfinish)
    · exact .inr (.inr (.inr ⟨hleads, t, ht, d, rfl⟩))
    · exact .inr (.inl ⟨t, ht, r, rfl⟩)
    · exact .inr (.inr (.inl ⟨hfirst, t, ht, rfl⟩))
    · exact .inl (.inl ⟨t, ht, (mem_readout recurrence call ht).mp hpublish⟩)
    · exact .inl (.inr hfinish)
  · rintro ((⟨t, ht, hout⟩ | hfinish) | ⟨t, ht, r, rfl⟩
      | ⟨hfirst, t, ht, rfl⟩ | ⟨hleads, t, ht, d, rfl⟩)
    · exact .inr (.inr (.inr (.inl ⟨t, ht,
        (mem_readout recurrence call ht).mpr hout⟩)))
    · exact .inr (.inr (.inr (.inr hfinish)))
    · exact .inr (.inl ⟨t, ht, r, rfl⟩)
    · exact .inr (.inr (.inl ⟨t, ht, hfirst, rfl⟩))
    · exact .inl ⟨t, ht, hleads, d, rfl⟩

/-- The cells a warp writes in a layer. -/
inductive Call.Records (call : Call F B) (capacity layer : Nat) (warp : Warp)
    (cell : Cell) : Prop where
  | out (t : Nat) (r : Fin 4) (ht : t < call.width)
      (h : cell = call.outCell layer warp t r)
  | value (t : Nat) (r : Fin 4) (ht : t < call.width)
      (h : cell = call.valueCell capacity layer warp t r)
  | gate (t : Nat) (ht : t < call.width) (hfirst : First warp)
      (h : cell = call.gateCell capacity layer warp t)
  | key (t : Nat) (d : Fin 128) (ht : t < call.width) (hleads : call.Leads warp)
      (h : cell = call.keyCell capacity layer warp.y t
        (call.heads.qkHead warp.x) d)

section

variable {capacity : Nat} (hrows : call.rows ≤ capacity)
include hrows

omit hfits in
theorem valueCell_inj
    {r r' : Fin 4} (hw : call.Runs warp) (hw' : call.Runs warp')
    (ht : t < call.width) (ht' : t' < call.width)
    (h : call.valueCell capacity layer warp t r
      = call.valueCell capacity layer' warp' t' r') :
    layer = layer' ∧ warp = warp' ∧ t = t' ∧ r = r' := by
  obtain ⟨hx, hy, hz, hwarp⟩ := hw
  obtain ⟨hx', hy', hz', hwarp'⟩ := hw'
  injection h with haddress
  rw [Nat.add_assoc (_ + _ * 128), Nat.add_assoc (_ + _ * 128)] at haddress
  obtain ⟨hlayer, hy, ht, hx, hrow⟩ := record_inj (by omega) (by omega) ht ht'
    hx hx' (tileRow_lt hz hwarp r) (tileRow_lt hz' hwarp' r') haddress
  obtain ⟨hz, hwarp, hr⟩ := tileRow_inj hwarp hwarp' hrow
  exact ⟨hlayer, Warp.ext hx hy hz hwarp, ht, hr⟩

omit hfits in
theorem gateCell_inj
    (hw : call.Runs warp) (hw' : call.Runs warp') (hfirst : First warp)
    (hfirst' : First warp') (ht : t < call.width) (ht' : t' < call.width)
    (h : call.gateCell capacity layer warp t
      = call.gateCell capacity layer' warp' t') :
    layer = layer' ∧ warp = warp' ∧ t = t' := by
  obtain ⟨hx, hy, -, -⟩ := hw
  obtain ⟨hx', hy', -, -⟩ := hw'
  injection h with haddress
  -- A gate is an element of its own.
  have hunit : ∀ layer b t head : Nat,
      layer * capacity * (call.heads.valueHeads * call.width)
          + ((b * call.width + t) * call.heads.valueHeads + head)
        = layer * capacity * (1 * call.heads.valueHeads * call.width)
          + ((b * call.width + t) * call.heads.valueHeads + head) * 1
          + 0 := by
    intro layer b t head
    rw [Nat.one_mul, Nat.mul_one, Nat.add_zero]
  rw [hunit, hunit] at haddress
  obtain ⟨hlayer, hy, ht, hx, -⟩ := record_inj (by omega) (by omega) ht ht'
    hx hx' (by decide) (by decide) haddress
  have hz : warp.z = warp'.z := hfirst.1.trans hfirst'.1.symm
  have hwarp : warp.warp = warp'.warp := hfirst.2.trans hfirst'.2.symm
  exact ⟨hlayer, Warp.ext hx hy hz hwarp, ht⟩

theorem keyCell_inj
    {d d' : Fin 128} (hw : call.Runs warp) (hw' : call.Runs warp')
    (hleads : call.Leads warp) (hleads' : call.Leads warp')
    (ht : t < call.width) (ht' : t' < call.width)
    (h : call.keyCell capacity layer warp.y t (call.heads.qkHead warp.x) d
      = call.keyCell capacity layer' warp'.y t' (call.heads.qkHead warp'.x) d') :
    layer = layer' ∧ warp = warp' ∧ t = t' ∧ d = d' := by
  obtain ⟨hx, hy, -, -⟩ := hw
  obtain ⟨hx', hy', -, -⟩ := hw'
  obtain ⟨hqk, hqklt⟩ := hfits.heads warp.x hx
  obtain ⟨hqk', hqklt'⟩ := hfits.heads warp'.x hx'
  injection h with haddress
  rw [hqk, hqk'] at haddress
  obtain ⟨hlayer, hy, ht, hgroup, hd⟩ := record_inj (by omega) (by omega) ht
    ht' hqklt hqklt' d.isLt d'.isLt haddress
  -- Only the first head of a group stores its key.
  have hhead := Nat.div_add_mod warp.x call.heads.groupSize
  have hhead' := Nat.div_add_mod warp'.x call.heads.groupSize
  rw [hleads.2.2] at hhead
  rw [hleads'.2.2, ← hgroup] at hhead'
  have hx : warp.x = warp'.x := hhead.symm.trans hhead'
  have hz : warp.z = warp'.z := hleads.1.trans hleads'.1.symm
  have hwarp : warp.warp = warp'.warp := hleads.2.1.trans hleads'.2.1.symm
  exact ⟨hlayer, Warp.ext hx hy hz hwarp, ht, Fin.ext hd⟩

/-- A cell of two warps is of one. -/
theorem Records.unique {layer layer' : Nat} {cell : Cell}
    (hw : call.Runs warp) (hw' : call.Runs warp')
    (h : call.Records capacity layer warp cell)
    (h' : call.Records capacity layer' warp' cell) :
    layer = layer' ∧ warp = warp' := by
  cases h with
  | out t r ht hcell =>
    cases h' with
    | out t' r' ht' hcell' =>
      have hinj := outCell_inj hw hw' ht ht' (hcell.symm.trans hcell')
      exact ⟨hinj.1, hinj.2.1⟩
    | value t' r' ht' hcell' => cases hcell.symm.trans hcell'
    | gate t' ht' hfirst' hcell' => cases hcell.symm.trans hcell'
    | key t' d' ht' hleads' hcell' => cases hcell.symm.trans hcell'
  | value t r ht hcell =>
    cases h' with
    | out t' r' ht' hcell' => cases hcell.symm.trans hcell'
    | value t' r' ht' hcell' =>
      have hinj := valueCell_inj hrows hw hw' ht ht' (hcell.symm.trans hcell')
      exact ⟨hinj.1, hinj.2.1⟩
    | gate t' ht' hfirst' hcell' => cases hcell.symm.trans hcell'
    | key t' d' ht' hleads' hcell' => cases hcell.symm.trans hcell'
  | gate t ht hfirst hcell =>
    cases h' with
    | out t' r' ht' hcell' => cases hcell.symm.trans hcell'
    | value t' r' ht' hcell' => cases hcell.symm.trans hcell'
    | gate t' ht' hfirst' hcell' =>
      have hinj := gateCell_inj hrows hw hw' hfirst hfirst' ht ht'
        (hcell.symm.trans hcell')
      exact ⟨hinj.1, hinj.2.1⟩
    | key t' d' ht' hleads' hcell' => cases hcell.symm.trans hcell'
  | key t d ht hleads hcell =>
    cases h' with
    | out t' r' ht' hcell' => cases hcell.symm.trans hcell'
    | value t' r' ht' hcell' => cases hcell.symm.trans hcell'
    | gate t' ht' hfirst' hcell' => cases hcell.symm.trans hcell'
    | key t' d' ht' hleads' hcell' =>
      have hinj := keyCell_inj hfits hrows hw hw' hleads hleads' ht ht'
        (hcell.symm.trans hcell')
      exact ⟨hinj.1, hinj.2.1⟩

/-- A warp writes a cell once. -/
theorem recordKernel_one {layer : Nat} {m : Memory F B}
    (hw : call.Runs warp) {write write' : (cell : Cell) × Content F B cell}
    (h : write ∈ call.recordKernel recurrence capacity layer warp m)
    (h' : write' ∈ call.recordKernel recurrence capacity layer warp m)
    (hcell : write.1 = write'.1) : write = write' := by
  have hactive := (hfits.active warp.y hw.2.1).2
  rw [mem_recordKernel recurrence hfits hw] at h h'
  rcases h with ⟨t, ht, r, rfl⟩ | ⟨t, ht, r, rfl⟩ | ⟨hfirst, t, ht, rfl⟩
    | ⟨hleads, t, ht, d, rfl⟩
  · rcases h' with ⟨t', ht', r', rfl⟩ | ⟨t', ht', r', rfl⟩
      | ⟨hfirst', t', ht', rfl⟩ | ⟨hleads', t', ht', d', rfl⟩
    · obtain ⟨-, -, rfl, rfl⟩ := outCell_inj hw hw ht ht' hcell
      rfl
    · cases hcell
    · cases hcell
    · cases hcell
  · rcases h' with ⟨t', ht', r', rfl⟩ | ⟨t', ht', r', rfl⟩
      | ⟨hfirst', t', ht', rfl⟩ | ⟨hleads', t', ht', d', rfl⟩
    · cases hcell
    · obtain ⟨-, -, rfl, rfl⟩ := valueCell_inj hrows hw hw (by omega)
        (by omega) hcell
      rfl
    · cases hcell
    · cases hcell
  · rcases h' with ⟨t', ht', r', rfl⟩ | ⟨t', ht', r', rfl⟩
      | ⟨hfirst', t', ht', rfl⟩ | ⟨hleads', t', ht', d', rfl⟩
    · cases hcell
    · cases hcell
    · obtain ⟨-, -, rfl⟩ := gateCell_inj hrows hw hw hfirst hfirst'
        (by omega) (by omega) hcell
      rfl
    · cases hcell
  · rcases h' with ⟨t', ht', r', rfl⟩ | ⟨t', ht', r', rfl⟩
      | ⟨hfirst', t', ht', rfl⟩ | ⟨hleads', t', ht', d', rfl⟩
    · cases hcell
    · cases hcell
    · cases hcell
    · obtain ⟨-, -, rfl, rfl⟩ := keyCell_inj hfits hrows hw hw hleads hleads'
        (by omega) (by omega) hcell
      rfl

theorem record_apart :
    Apart (fun (place : Nat × Warp) =>
        call.recordKernel recurrence capacity place.1 place.2)
      (fun place => call.Runs place.2)
      (fun place cell => ∃ (r : Fin 4) (d : Fin 128), cell
        = call.stateCell place.1 (call.initialSlots place.2.y) place.2 r d)
      (fun place => call.Records capacity place.1 place.2) where
  sees := by
    intro place m m' _ hsame
    have haccess := access_congr recurrence call fun r d =>
      hsame _ ⟨r, d, rfl⟩
    rw [Call.recordKernel, Call.recordKernel, Call.recordAccess,
      Call.recordAccess, haccess]
  inside := by
    intro place m write hw hwrite
    have hactive := (hfits.active place.2.y hw.2.1).2
    rcases (mem_recordKernel recurrence hfits hw).mp hwrite with
      ⟨t, ht, r, rfl⟩ | ⟨t, ht, r, rfl⟩ | ⟨hfirst, t, ht, rfl⟩
      | ⟨hleads, t, ht, d, rfl⟩
    · exact .out t r ht rfl
    · exact .value t r (by omega) rfl
    · exact .gate t (by omega) hfirst rfl
    · exact .key t d (by omega) hleads rfl
  unread := by
    rintro place place' cell hw hw' hne hwrites ⟨r, d, rfl⟩
    cases hwrites with
    | out t r ht hcell => cases hcell
    | value t r ht hcell => cases hcell
    | gate t ht hfirst hcell => cases hcell
    | key t d ht hleads hcell => cases hcell
  alone := by
    rintro ⟨layer, warp⟩ ⟨layer', warp'⟩ cell hw hw' hne hwrites hown
    obtain ⟨rfl, rfl⟩ := Records.unique hfits hrows hw hw' hown hwrites
    exact hne rfl

-- The warps of all layers, layer after layer.

omit hfits hrows in
theorem record_eq_run (layers : Nat) (orders : Nat → List Warp) (m : Memory F B) :
    call.record recurrence capacity layers orders m
      = run (fun (place : Nat × Warp) =>
        call.recordKernel recurrence capacity place.1 place.2)
        ((List.range layers).flatMap fun layer =>
        (orders layer).map fun warp => (layer, warp)) m := by
  induction layers with
  | zero => rfl
  | succ layers ih =>
    rw [Call.record, range_succ, foldl_append, foldl_cons,
      foldl_nil, flatMap_append, flatMap_cons,
      flatMap_nil, append_nil, run_append, ← ih, Launch.run, Launch.run,
      foldl_map]
    rfl

variable {layers : Nat} {orders : Nat → List Warp}
  (horders : ∀ layer < layers, (orders layer).Perm call.grid)
  (m : Memory F B)
include horders

omit hfits hrows in
theorem layers_order :
    (∀ place ∈ (List.range layers).flatMap fun layer =>
        (orders layer).map fun warp => (layer, warp), call.Runs place.2) ∧
      ((List.range layers).flatMap fun layer =>
        (orders layer).map fun warp => (layer, warp)).Nodup ∧
      ∀ layer < layers, ∀ warp, call.Runs warp →
        (layer, warp) ∈ (List.range layers).flatMap fun layer =>
        (orders layer).map fun warp => (layer, warp) := by
  refine ⟨?_, ?_, ?_⟩
  · intro place hplace
    obtain ⟨layer, hlayer, hplace⟩ := mem_flatMap.mp hplace
    obtain ⟨warp, hwarp, rfl⟩ := mem_map.mp hplace
    exact (order_runs (horders layer (mem_range.mp hlayer))).1 warp hwarp
  · rw [nodup_flatMap]
    refine ⟨?_, nodup_range.imp_of_mem ?_⟩
    · intro layer hlayer
      refine List.Nodup.map ?_
        (order_runs (horders layer (mem_range.mp hlayer))).2.1
      intro warp warp' hsame
      exact (Prod.mk.inj hsame).2
    · intro layer layer' _ _ hne place hplace hplace'
      obtain ⟨warp, -, rfl⟩ := mem_map.mp hplace
      obtain ⟨warp', -, hsame⟩ := mem_map.mp hplace'
      exact hne (Prod.mk.inj hsame).1.symm
  · intro layer hlayer warp hw
    refine mem_flatMap.mpr ⟨layer, mem_range.mpr hlayer,
      mem_map.mpr ⟨warp, ?_, rfl⟩⟩
    exact (order_runs (horders layer hlayer)).2.2 warp hw

/-- What a warp stores stays. -/
theorem record_stored {layer : Nat} (hlayer : layer < layers)
    (hw : call.Runs warp) {cell : Cell} {x : Content F B cell}
    (h : ⟨cell, x⟩ ∈ call.recordKernel recurrence capacity layer warp m) :
    call.record recurrence capacity layers orders m cell = x := by
  obtain ⟨hall, hnodup, hmem⟩ := layers_order horders
  have hapart := record_apart recurrence hfits hrows
  have hwrites := hapart.inside (i := (layer, warp)) hw h
  rw [record_eq_run, run_of_writes hapart hall hnodup
    (hmem layer hlayer warp hw) hwrites]
  refine commit_of_mem h ?_
  intro write hwrite hcell
  exact recordKernel_one recurrence hfits hrows hw hwrite h hcell

/-- A cell without a warp keeps what it holds. -/
theorem record_kept {cell : Cell}
    (h : ∀ layer < layers, ∀ warp, call.Runs warp →
      ¬ call.Records capacity layer warp cell) :
    call.record recurrence capacity layers orders m cell = m cell := by
  obtain ⟨hall, -, -⟩ := layers_order horders
  rw [record_eq_run, run_of_not_writes (record_apart recurrence hfits hrows) hall]
  intro place hplace hwrites
  obtain ⟨layer, hlayer, hmap⟩ := mem_flatMap.mp hplace
  obtain ⟨warp, -, rfl⟩ := mem_map.mp hmap
  exact h layer (mem_range.mp hlayer) warp (hall _ hplace) hwrites

/-- The states and the recorded columns are only read. -/
theorem record_states (a : Nat) :
    call.record recurrence capacity layers orders m (.recurrent a)
        = m (.recurrent a) ∧
      call.record recurrence capacity layers orders m (.conv a) = m (.conv a) ∧
      call.record recurrence capacity layers orders m (.convRecord a)
        = m (.convRecord a) := by
  refine ⟨?_, ?_, ?_⟩
  all_goals
    refine record_kept recurrence hfits hrows horders m ?_
    intro layer _ warp _ hwrites
    cases hwrites with
    | out t r ht hcell => cases hcell
    | value t r ht hcell => cases hcell
    | gate t ht hfirst hcell => cases hcell
    | key t d ht hleads hcell => cases hcell

/-- The outputs are those of the snapshot form. -/
theorem record_out {bases : Nat → Nat} (hreserved : call.Reserved bases
    slots) {layer : Nat} (hlayer : layer < layers) {order : List Warp}
    (horder : order.Perm call.grid) (a : Nat) :
    call.record recurrence capacity layers orders m (.out layer a)
      = call.snapshot recurrence bases layer order m (.out layer a) := by
  by_cases hown : ∃ warp, call.Runs warp ∧ ∃ t < call.width, ∃ r : Fin 4,
      Cell.out layer a = call.outCell layer warp t r
  · obtain ⟨warp, hw, t, ht, r, hcell⟩ := hown
    rw [hcell, snapshot_out recurrence hfits hreserved horder m hw ht r]
    refine record_stored recurrence hfits hrows horders m hlayer hw ?_
    exact (mem_recordKernel recurrence hfits hw).mpr (.inl ⟨t, ht, r, rfl⟩)
  · rw [snapshot_kept recurrence hfits hreserved horder m
      fun warp hw t ht r hcell => hown ⟨warp, hw, t, ht, r, hcell⟩]
    refine record_kept recurrence hfits hrows horders m ?_
    intro layer' _ warp hw hwrites
    cases hwrites with
    | out t r ht hcell =>
      have hsame : layer = layer' := (Cell.out.inj hcell).1
      exact hown ⟨warp, hw, t, ht, r, hsame ▸ hcell⟩
    | value t r ht hcell => cases hcell
    | gate t ht hfirst hcell => cases hcell
    | key t d ht hleads hcell => cases hcell

section

variable {layer : Nat} (hlayer : layer < layers) {warp : Warp}
  (hw : call.Runs warp) {t : Nat} (ht : t < call.activeColumns warp.y)
include hlayer hw ht

/-- The values of a head's rows, as any warp of the head loads them. -/
theorem record_value (r : Fin 4) :
    call.record recurrence capacity layers orders m
        (call.valueCell capacity layer warp t r)
      = (call.access recurrence layer warp m).value t r := by
  refine record_stored recurrence hfits hrows horders m hlayer hw ?_
  exact (mem_recordKernel recurrence hfits hw).mpr (.inr (.inl ⟨t, ht, r, rfl⟩))

/-- The gate a head's first warp stores. -/
theorem record_gate :
    call.record recurrence capacity layers orders m
        (call.gateCell capacity layer warp t)
      = (call.access recurrence layer warp m).gate t := by
  have hw' : call.Runs ⟨warp.x, warp.y, 0, 0⟩ :=
    ⟨hw.1, hw.2.1, Nat.zero_lt_succ 7, Nat.zero_lt_succ 3⟩
  refine record_stored recurrence hfits hrows horders m hlayer hw' ?_
  exact (mem_recordKernel recurrence hfits hw').mpr
    (.inr (.inr (.inl ⟨⟨rfl, rfl⟩, t, ht, rfl⟩)))

/-- The key the first head of a group stores. -/
theorem record_key (d : Fin 128) :
    call.record recurrence capacity layers orders m
        (call.keyCell capacity layer warp.y t (call.heads.qkHead warp.x) d)
      = (call.access recurrence layer warp m).key t d := by
  obtain ⟨hqk, -⟩ := hfits.heads warp.x hw.1
  -- The first head of the group of `warp.x`.
  obtain ⟨first, hfirst⟩ : ∃ first, first
      = warp.x / call.heads.groupSize * call.heads.groupSize := ⟨_, rfl⟩
  have hle : first ≤ warp.x := by
    rw [hfirst]
    exact Nat.div_mul_le_self _ _
  have hfirstLt : first < call.heads.valueHeads := Nat.lt_of_le_of_lt hle hw.1
  have hmod : first % call.heads.groupSize = 0 := by
    rw [hfirst]
    exact Nat.mul_mod_left _ _
  obtain ⟨hqk', -⟩ := hfits.heads first hfirstLt
  have hsame : call.heads.qkHead first = call.heads.qkHead warp.x := by
    rw [hqk', hqk, hfirst]
    rcases Nat.eq_zero_or_pos call.heads.groupSize with hzero | hpos
    · rw [hzero, Nat.div_zero, Nat.div_zero]
    · exact Nat.mul_div_cancel _ hpos
  have hw' : call.Runs ⟨first, warp.y, 0, 0⟩ :=
    ⟨hfirstLt, hw.2.1, Nat.zero_lt_succ 7, Nat.zero_lt_succ 3⟩
  have hstored := record_stored recurrence hfits hrows horders m hlayer hw'
    ((mem_recordKernel recurrence hfits hw').mpr (.inr (.inr (.inr
      ⟨⟨rfl, rfl, hmod⟩, t, ht, d, rfl⟩))))
  have hkey : (call.access recurrence layer ⟨first, warp.y, 0, 0⟩ m).key t d
      = (call.access recurrence layer warp m).key t d := by
    change (call.inputs layer).k _ = (call.inputs layer).k _
    congr 1
    change (_ + call.heads.qkHead first) * 128 + _
      = (_ + call.heads.qkHead warp.x) * 128 + _
    rw [hsame]
    rfl
  rw [hsame, hkey] at hstored
  exact hstored

end

end

end

end Ginfer.Ops.GdnReplay
