/-
The fold, warp by warp.

A warp owns four rows of a head's state in the slot of its row and, where
its block reaches that far, the histories of 32 channels (`Fold.Own`). It
reads nothing else that the launch writes, so every element of a committed
row ends up with what its warp makes of the memory before the launch
(`fold_state`, `fold_conv`), is written once (`targets_nodup`), and no
other element is written (`mem_targets`).
-/
import Ginfer.Ops.Proofs.GdnForms

namespace Ginfer.Ops.GdnReplay

open Ginfer.Lib List
open Ginfer.Lib.Launch

namespace Fold

variable {F B : Type} (recurrence : Recurrence F B) (fold : Fold)

-- ============ the cells

/-- What the checks and the registered geometries see to. -/
structure Fits (slots : Nat) : Prop where
  slot : ∀ b < fold.rows.length, (fold.row b).linearStateSlot < slots
  distinct : ∀ b < fold.rows.length, ∀ b' < fold.rows.length,
    (fold.row b).linearStateSlot = (fold.row b').linearStateSlot → b = b'
  recurrent : slots * (fold.geometry.valueHeads * 128 * 128)
    ≤ fold.recurrentStride
  conv : slots * (3 * fold.geometry.convChannels) ≤ fold.convStride
  whole : fold.geometry.convChannels % 128 = 0
  pos : 0 < fold.geometry.convChannels
  reach : fold.geometry.convChannels / 128 ≤ fold.geometry.valueHeads * 8

/-- A warp of the launch. -/
def Runs (warp : Warp) : Prop :=
  InGrid fold.geometry.valueHeads fold.rows.length (fold.geometry.layers * 8) warp

theorem layer_eq (warp : Warp) : (fold.coordinates warp).layer = warp.z / 8 :=
  Nat.shiftRight_eq_div_pow warp.z 3

theorem stateTile_eq (warp : Warp) :
    (fold.coordinates warp).stateTile = warp.z % 8 :=
  Nat.and_two_pow_sub_one_eq_mod warp.z 3

/-- The slot of a warp's row. -/
def slotOf (warp : Warp) : Nat := (fold.row warp.y).linearStateSlot

/-- An element of the warp's tile. -/
abbrev tileCell (warp : Warp) (r : Fin 4) (d : Fin 128) : Cell :=
  .recurrent (fold.stateReadBase (fold.coordinates warp)
    + ((fold.coordinates warp).dvBase + r) * 128 + d)

/-- The block of 128 channels of a block's threads. -/
def tileBlock (warp : Warp) : Nat :=
  (fold.coordinates warp).valueHead * 8 + (fold.coordinates warp).stateTile

/-- The channel of a lane. -/
def channelOf (warp : Warp) (lane : Nat) : Nat :=
  fold.tileBlock warp * 128 + (warp.warp * 32 + lane)

/-- The place of value `s` of a channel's history. -/
def historyAt (layer slot channel : Nat) : Fin 3 → Nat
  | 0 => fold.history layer slot channel
  | 1 => fold.history layer slot channel + fold.geometry.convChannels
  | 2 => fold.history layer slot channel + 2 * fold.geometry.convChannels

/-- Value `s` of a history. -/
def historyValue (h : CausalConv.Window B) : Fin 3 → B
  | 0 => h.s0
  | 1 => h.s1
  | 2 => h.s2

/-- An element of a lane's history. -/
abbrev convCell (warp : Warp) (lane : Nat) (s : Fin 3) : Cell :=
  .conv (fold.historyAt (fold.coordinates warp).layer (fold.slotOf warp)
    (fold.channelOf warp lane) s)

/-- What a warp reads and writes of the states. -/
inductive Own (warp : Warp) (cell : Cell) : Prop where
  | state (r : Fin 4) (d : Fin 128) (h : cell = fold.tileCell warp r d)
  | conv (lane : Nat) (s : Fin 3) (hlane : lane < 32)
      (hblock : fold.tileBlock warp < fold.geometry.convChannels / 128)
      (h : cell = fold.convCell warp lane s)

/-- The record planes, which the fold only reads. -/
inductive Recorded : Cell → Prop where
  | key (a : Nat) : Recorded (.keyRecord a)
  | value (a : Nat) : Recorded (.valueRecord a)
  | gate (a : Nat) : Recorded (.gateRecord a)
  | conv (a : Nat) : Recorded (.convRecord a)

-- ============ the addresses

theorem historyAt_eq (layer slot channel : Nat) (s : Fin 3) :
    fold.historyAt layer slot channel s = layer * fold.convStride
      + (slot * (3 * fold.geometry.convChannels)
        + (s * fold.geometry.convChannels + channel)) := by
  match s with
  | 0 =>
    rw [historyAt, history, Fin.val_zero, zero_mul]
    omega
  | 1 =>
    rw [historyAt, history, Fin.val_one, one_mul]
    omega
  | 2 =>
    rw [historyAt, history, Fin.val_two]
    omega

variable {fold} {slots : Nat} (hfits : fold.Fits slots)
include hfits

/-- An element of a history has one place. -/
theorem historyAt_inj {layer layer' slot slot' channel channel' : Nat}
    {s s' : Fin 3} (hslot : slot < slots) (hslot' : slot' < slots)
    (hchannel : channel < fold.geometry.convChannels)
    (hchannel' : channel' < fold.geometry.convChannels)
    (h : fold.historyAt layer slot channel s
      = fold.historyAt layer' slot' channel' s') :
    layer = layer' ∧ slot = slot' ∧ channel = channel' ∧ s = s' := by
  rw [historyAt_eq, historyAt_eq] at h
  have hwindow := digits_lt s.isLt hchannel
  have hwindow' := digits_lt s'.isLt hchannel'
  have hslots := lt_of_lt_of_le (digits_lt hslot hwindow) hfits.conv
  have hslots' := lt_of_lt_of_le (digits_lt hslot' hwindow') hfits.conv
  obtain ⟨hlayer, h⟩ := digits_inj hslots hslots' h
  obtain ⟨hslot, h⟩ := digits_inj hwindow hwindow' h
  obtain ⟨hs, hchannel⟩ := digits_inj hchannel hchannel' h
  exact ⟨hlayer, hslot, hchannel, Fin.ext hs⟩

variable {warp : Warp}

/-- The channels of a block that has any are channels. -/
theorem channelOf_lt {lane : Nat} (hwarp : warp.warp < 4) (hlane : lane < 32)
    (hblock : fold.tileBlock warp < fold.geometry.convChannels / 128) :
    fold.channelOf warp lane < fold.geometry.convChannels := by
  have hwhole := hfits.whole
  rw [channelOf]
  omega

theorem Own.unique {warp' : Warp} {cell : Cell} (hw : fold.Runs warp)
    (hw' : fold.Runs warp') (h : fold.Own warp cell)
    (h' : fold.Own warp' cell) : warp = warp' := by
  obtain ⟨hx, hy, hz, hwarp⟩ := hw
  obtain ⟨hx', hy', hz', hwarp'⟩ := hw'
  have hslot := hfits.slot warp.y hy
  have hslot' := hfits.slot warp'.y hy'
  cases h with
  | state r d hcell =>
    cases h' with
    | conv lane' s' hlane' hblock' hcell' =>
      cases hcell.symm.trans hcell'
    | state r' d' hcell' =>
      have haddress := Cell.recurrent.inj (hcell.symm.trans hcell')
      rw [Coordinates.dvBase, Coordinates.dvBase, stateTile_eq,
        stateTile_eq] at haddress
      obtain ⟨hlayer, hsame, hhead, hrow, -⟩ := state_inj hfits.recurrent
        hslot hslot' hx hx'
        (tileRow_lt (Nat.mod_lt _ (by decide)) hwarp r)
        (tileRow_lt (Nat.mod_lt _ (by decide)) hwarp' r') d.isLt d'.isLt
        haddress
      obtain ⟨htile, hwarp, -⟩ := tileRow_inj hwarp hwarp' hrow
      rw [layer_eq, layer_eq] at hlayer
      exact Warp.ext hhead (hfits.distinct _ hy _ hy' hsame) (by omega) hwarp
  | conv lane s hlane hblock hcell =>
    cases h' with
    | state r' d' hcell' => cases hcell.symm.trans hcell'
    | conv lane' s' hlane' hblock' hcell' =>
      have haddress := Cell.conv.inj (hcell.symm.trans hcell')
      obtain ⟨hlayer, hsame, hchannel, -⟩ := historyAt_inj hfits hslot
        hslot' (channelOf_lt hfits hwarp hlane hblock)
        (channelOf_lt hfits hwarp' hlane' hblock') haddress
      rw [layer_eq, layer_eq] at hlayer
      rw [channelOf, channelOf] at hchannel
      obtain ⟨htile, hlanes⟩ := digits_inj (by omega) (by omega) hchannel
      rw [tileBlock, tileBlock, stateTile_eq, stateTile_eq] at htile
      change warp.x * 8 + _ = warp'.x * 8 + _ at htile
      exact Warp.ext (by omega) (hfits.distinct _ hy _ hy' hsame)
        (by omega) (by omega)

-- ============ the stores

variable {write : (cell : Cell) × Content F B cell}

omit hfits in
/-- The threads' histories. -/
theorem mem_publish {m : Memory F B} {commit : Nat} :
    write ∈ fold.publishFinalConvHistory m (fold.coordinates warp) commit ↔
      fold.tileBlock warp < fold.geometry.convChannels / 128 ∧
        ∃ lane < 32, ∃ s : Fin 3, write = ⟨fold.convCell warp lane s,
        historyValue (fold.finalHistory m (fold.coordinates warp)
          (fold.channelOf warp lane) commit) s⟩ := by
  rw [publishFinalConvHistory]
  dsimp only
  change write ∈ (if _ ≤ fold.tileBlock warp then [] else _) ↔ _
  by_cases hblock : fold.geometry.convChannels / 128 ≤ fold.tileBlock warp
  · rw [if_pos hblock]
    constructor
    · intro hnone
      cases hnone
    · intro h
      omega
  · rw [if_neg hblock, mem_flatMap]
    constructor
    · rintro ⟨lane, hlane, hwrite⟩
      refine ⟨by omega, lane, mem_range.mp hlane, ?_⟩
      rcases mem_cons.mp hwrite with rfl | hwrite
      · exact ⟨0, rfl⟩
      rcases mem_cons.mp hwrite with rfl | hwrite
      · exact ⟨1, rfl⟩
      rw [mem_singleton] at hwrite
      exact ⟨2, hwrite⟩
    · rintro ⟨-, lane, hlane, s, rfl⟩
      refine ⟨lane, mem_range.mpr hlane, ?_⟩
      match s with
      | 0 => exact .head _
      | 1 => exact .tail _ (.head _)
      | 2 =>
        exact .tail _ (.tail _ (.head _))

omit hfits in
/-- A warp of a committed row stores its tile and its histories. -/
theorem kernel_eq {m : Memory F B}
    (hcommit : (fold.row warp.y).commitColumns ≠ 0) :
    fold.kernel recurrence warp m
      = storeTile (fold.stateReadBase (fold.coordinates warp))
        (fold.coordinates warp).dvBase
        (tileAfter recurrence (fold.access warp m)
          (fold.row warp.y).commitColumns)
        ++ fold.publishFinalConvHistory m (fold.coordinates warp)
        (fold.row warp.y).commitColumns := by
  have hnone : ∀ n, (List.range n).flatMap (columnStores recurrence
      (fold.access warp m) (fold.row warp.y).commitColumns) = [] := by
    intro n
    rw [flatMap_eq_nil_iff]
    intro t _
    rw [columnStores]
    split <;> rfl
  rw [kernel, if_neg hcommit, recurrentBody_eq, hnone]
  rfl

omit hfits in
theorem mem_kernel {m : Memory F B} :
    write ∈ fold.kernel recurrence warp m ↔
      (fold.row warp.y).commitColumns ≠ 0 ∧ ((∃ (r : Fin 4) (d : Fin 128), write
        = ⟨fold.tileCell warp r d, tileAfter recurrence (fold.access warp m)
            (fold.row warp.y).commitColumns r d⟩) ∨
        (fold.tileBlock warp < fold.geometry.convChannels / 128 ∧
        ∃ lane < 32, ∃ s : Fin 3, write = ⟨fold.convCell warp lane s,
          historyValue (fold.finalHistory m (fold.coordinates warp)
            (fold.channelOf warp lane)
            (fold.row warp.y).commitColumns) s⟩)) := by
  by_cases hcommit : (fold.row warp.y).commitColumns = 0
  · rw [kernel, if_pos hcommit]
    constructor
    · intro hnone
      cases hnone
    · exact fun h => absurd hcommit h.1
  · rw [kernel_eq recurrence hcommit, mem_append, mem_storeTile, mem_publish]
    exact ⟨fun h => ⟨hcommit, h⟩, fun h => h.2⟩

omit hfits in
/-- A warp sees of the memory what it owns and the records. -/
theorem access_congr {m m' : Memory F B}
    (h : ∀ cell, fold.Own warp cell ∨ Recorded cell → m cell = m' cell) :
    fold.access warp m = fold.access warp m' := by
  have hinitial : (fold.access warp m).initial
      = (fold.access warp m').initial := by
    funext r d
    exact h _ (.inl (.state r d rfl))
  have hkey : (fold.access warp m).key = (fold.access warp m').key := by
    funext token d
    exact h _ (.inr (.key _))
  have hvalue : (fold.access warp m).value = (fold.access warp m').value := by
    funext token r
    exact h _ (.inr (.value _))
  have hgate : (fold.access warp m).gate = (fold.access warp m').gate := by
    funext token
    exact h _ (.inr (.gate _))
  have hpublish : ∀ commit,
      fold.publishFinalConvHistory m (fold.coordinates warp) commit
        = fold.publishFinalConvHistory m' (fold.coordinates warp)
          commit := by
    intro commit
    rw [publishFinalConvHistory, publishFinalConvHistory]
    dsimp only
    by_cases hblock : fold.geometry.convChannels / 128 ≤ fold.tileBlock warp
    · exact (if_pos hblock).trans (if_pos hblock).symm
    refine (if_neg hblock).trans (Eq.trans ?_ (if_neg hblock).symm)
    refine flatMap_congr fun lane hlane => ?_
    -- The old values and the recorded columns a history is made of.
    have hfirst := h (fold.convCell warp lane 1) (.inl (.conv lane 1
      (mem_range.mp hlane) (by omega) rfl))
    have hsecond := h (fold.convCell warp lane 2) (.inl (.conv lane 2
      (mem_range.mp hlane) (by omega) rfl))
    have hrecorded : ∀ token,
        fold.recorded m (fold.coordinates warp) (fold.channelOf warp lane) token
          = fold.recorded m' (fold.coordinates warp)
            (fold.channelOf warp lane) token := fun token =>
      h _ (.inr (.conv _))
    have hhistory : fold.finalHistory m (fold.coordinates warp)
        (fold.channelOf warp lane) commit
          = fold.finalHistory m' (fold.coordinates warp)
            (fold.channelOf warp lane) commit := by
      rw [finalHistory, finalHistory, hrecorded, hrecorded, hrecorded, hrecorded, hrecorded]
      change (if commit = 1 then (⟨m (fold.convCell warp lane 1),
        m (fold.convCell warp lane 2), _⟩ : CausalConv.Window B)
        else if commit = 2 then ⟨m (fold.convCell warp lane 2), _, _⟩
        else _) = _
      rw [hfirst, hsecond]
      rfl
    exact congrArg (fun history : CausalConv.Window B =>
      ([⟨fold.convCell warp lane 0, history.s0⟩,
        ⟨fold.convCell warp lane 1, history.s1⟩,
        ⟨fold.convCell warp lane 2, history.s2⟩] : Stores F B)) hhistory
  have hfinish : (fold.access warp m).finish
      = (fold.access warp m').finish := by
    funext tile
    exact congrArg (_ ++ ·) (hpublish _)
  unfold access at hinitial hkey hvalue hgate hfinish ⊢
  dsimp only at hinitial hkey hvalue hgate hfinish ⊢
  rw [hinitial, hkey, hvalue, hgate, hfinish]

theorem fold_apart :
    Apart (fold.kernel recurrence) fold.Runs
      (fun warp cell => fold.Own warp cell ∨ Recorded cell) fold.Own where
  sees := by
    intro warp m m' _ hsame
    rw [kernel, kernel, access_congr hsame]
  inside := by
    intro warp m write hw hwrite
    obtain ⟨-, ⟨r, d, rfl⟩ | ⟨hblock, lane, hlane, s, rfl⟩⟩ :=
      (mem_kernel recurrence).mp hwrite
    · exact .state r d rfl
    · exact .conv lane s hlane hblock rfl
  unread := by
    rintro warp warp' cell hw hw' hne hwrites (hown | hrecorded)
    · exact hne (Own.unique hfits hw hw' hown hwrites)
    · cases hwrites with
      | state r d hcell => cases hcell ▸ hrecorded
      | conv lane s hlane hblock hcell => cases hcell ▸ hrecorded
  alone := by
    intro warp warp' cell hw hw' hne hwrites hown
    exact hne (Own.unique hfits hw hw' hown hwrites)

-- ============ the launch

omit hfits in
theorem order_runs {order : List Warp} (horder : order.Perm fold.grid) :
    (∀ warp ∈ order, fold.Runs warp) ∧ order.Nodup ∧
      ∀ warp, fold.Runs warp → warp ∈ order := by
  refine ⟨?_, horder.nodup_iff.mpr (grid_nodup _ _ _), ?_⟩
  · intro warp hwarp
    exact mem_grid.mp (horder.mem_iff.mp hwarp)
  · intro warp hwarp
    exact horder.mem_iff.mpr (mem_grid.mpr hwarp)

/-- A warp writes a cell once. -/
theorem kernel_one {m : Memory F B} (hw : fold.Runs warp)
    {write' : (cell : Cell) × Content F B cell}
    (h : write ∈ fold.kernel recurrence warp m)
    (h' : write' ∈ fold.kernel recurrence warp m)
    (hcell : write.1 = write'.1) : write = write' := by
  obtain ⟨-, hy, -, hwarp⟩ := hw
  have hslot := hfits.slot warp.y hy
  obtain ⟨-, ⟨r, d, rfl⟩ | ⟨hblock, lane, hlane, s, rfl⟩⟩ :=
    (mem_kernel recurrence).mp h
  · obtain ⟨-, ⟨r', d', rfl⟩ | ⟨hblock', lane', hlane', s', rfl⟩⟩ :=
      (mem_kernel recurrence).mp h'
    · have haddress := Cell.recurrent.inj hcell
      have hr := r.isLt
      have hr' := r'.isLt
      have hd := d.isLt
      have hd' := d'.isLt
      have hrows : r = r' := Fin.ext (by omega)
      have hcolumns : d = d' := Fin.ext (by omega)
      rw [hrows, hcolumns]
    · cases hcell
  · obtain ⟨-, ⟨r', d', rfl⟩ | ⟨hblock', lane', hlane', s', rfl⟩⟩ :=
      (mem_kernel recurrence).mp h'
    · cases hcell
    · obtain ⟨-, -, hchannel, rfl⟩ := historyAt_inj hfits hslot hslot
        (channelOf_lt hfits hwarp hlane hblock)
        (channelOf_lt hfits hwarp hlane' hblock') (Cell.conv.inj hcell)
      rw [channelOf, channelOf] at hchannel
      have hlanes : lane = lane' := by omega
      rw [hlanes]

section

variable {order : List Warp} (horder : order.Perm fold.grid) (m : Memory F B)
include horder

variable {warp : Warp}

/-- What a warp stores stays. -/
theorem fold_stored (hw : fold.Runs warp) {cell : Cell}
    {x : Content F B cell} (h : ⟨cell, x⟩ ∈ fold.kernel recurrence warp m) :
    run (fold.kernel recurrence) order m cell = x := by
  obtain ⟨hall, hnodup, hmem⟩ := order_runs horder
  have hapart := fold_apart recurrence hfits
  rw [run_of_writes hapart hall hnodup (hmem warp hw) (hapart.inside hw h)]
  refine commit_of_mem h ?_
  intro write hwrite hcell
  exact kernel_one recurrence hfits hw hwrite h hcell

/-- A committed row's state is the one after its commit. -/
theorem fold_state (hw : fold.Runs warp)
    (hcommit : (fold.row warp.y).commitColumns ≠ 0) (r : Fin 4)
    (d : Fin 128) :
    run (fold.kernel recurrence) order m (fold.tileCell warp r d)
      = tileAfter recurrence (fold.access warp m)
        (fold.row warp.y).commitColumns r d := by
  refine fold_stored recurrence hfits horder m hw ?_
  exact (mem_kernel recurrence).mpr ⟨hcommit, .inl ⟨r, d, rfl⟩⟩

theorem fold_conv (hw : fold.Runs warp)
    (hcommit : (fold.row warp.y).commitColumns ≠ 0)
    (hblock : fold.tileBlock warp < fold.geometry.convChannels / 128)
    {lane : Nat} (hlane : lane < 32) (s : Fin 3) :
    run (fold.kernel recurrence) order m (fold.convCell warp lane s)
      = historyValue (fold.finalHistory m (fold.coordinates warp)
        (fold.channelOf warp lane) (fold.row warp.y).commitColumns) s := by
  refine fold_stored recurrence hfits horder m hw ?_
  exact (mem_kernel recurrence).mpr ⟨hcommit, .inr ⟨hblock, lane, hlane, s, rfl⟩⟩

/-- What no warp of a committed row owns is not changed. -/
theorem fold_kept {cell : Cell}
    (h : ∀ warp, fold.Runs warp → fold.Own warp cell →
      (fold.row warp.y).commitColumns = 0) :
    run (fold.kernel recurrence) order m cell = m cell := by
  obtain ⟨hall, hnodup, hmem⟩ := order_runs horder
  have hapart := fold_apart recurrence hfits
  by_cases hown : ∃ warp, fold.Runs warp ∧ fold.Own warp cell
  · obtain ⟨warp, hw, hown⟩ := hown
    rw [run_of_writes hapart hall hnodup (hmem warp hw) hown, kernel,
      if_pos (h warp hw hown)]
    rfl
  · refine run_of_not_writes hapart hall ?_ m
    intro warp hwarp hcell
    exact hown ⟨warp, hall warp hwarp, hcell⟩

end

-- ============ the written cells

omit hfits in
theorem storeTile_cells {base dvBase : Nat} {tile : Tile F} :
    ((storeTile base dvBase tile : Stores F B).map Sigma.fst).Nodup := by
  rw [storeTile, map_map]
  refine List.Nodup.map ?_ ((nodup_finRange 4).product (nodup_finRange 128))
  rintro ⟨r, d⟩ ⟨r', d'⟩ h
  have haddress := Cell.recurrent.inj h
  have hd := d.isLt
  have hd' := d'.isLt
  have hrows : r = r' := Fin.ext (by omega)
  have hcolumns : d = d' := Fin.ext (by omega)
  rw [hrows, hcolumns]

theorem publish_cells (hw : fold.Runs warp) (m : Memory F B) (commit : Nat) :
    ((fold.publishFinalConvHistory m (fold.coordinates warp) commit).map
      Sigma.fst).Nodup := by
  obtain ⟨-, hy, -, hwarp⟩ := hw
  have hslot := hfits.slot warp.y hy
  rw [publishFinalConvHistory]
  dsimp only
  by_cases hblock : fold.geometry.convChannels / 128 ≤ fold.tileBlock warp
  · have hnone : ∀ stores : Stores F B,
        (if fold.geometry.convChannels / 128 ≤ fold.tileBlock warp then []
          else stores) = [] := fun stores => if_pos hblock
    change (List.map _ (if _ ≤ fold.tileBlock warp then [] else _)).Nodup
    rw [hnone]
    exact nodup_nil
  change (List.map _ (if _ ≤ fold.tileBlock warp then [] else _)).Nodup
  rw [if_neg hblock, map_flatMap]
  change ((List.range 32).flatMap fun lane =>
    (List.finRange 3).map (fold.convCell warp lane)).Nodup
  have hinj : ∀ lane < 32, ∀ lane' < 32, ∀ s s' : Fin 3,
      fold.convCell warp lane s = fold.convCell warp lane' s' →
        lane = lane' ∧ s = s' := by
    intro lane hlane lane' hlane' s s' hcell
    obtain ⟨-, -, hchannel, hs⟩ := historyAt_inj hfits hslot hslot
      (channelOf_lt hfits hwarp hlane (by omega))
      (channelOf_lt hfits hwarp hlane' (by omega)) (Cell.conv.inj hcell)
    rw [channelOf, channelOf] at hchannel
    exact ⟨by omega, hs⟩
  rw [nodup_flatMap]
  constructor
  · intro lane hlane
    refine List.Nodup.map ?_ (nodup_finRange 3)
    intro s s' hcell
    exact (hinj lane (mem_range.mp hlane) lane (mem_range.mp hlane)
      s s' hcell).2
  · refine nodup_range.imp_of_mem ?_
    intro lane lane' hlane hlane' hne cell hcell hcell'
    obtain ⟨s, -, rfl⟩ := mem_map.mp hcell
    obtain ⟨s', -, hsame⟩ := mem_map.mp hcell'
    exact hne (hinj lane' (mem_range.mp hlane') lane
      (mem_range.mp hlane) s' s hsame).1.symm

theorem kernel_cells (hw : fold.Runs warp) (m : Memory F B) :
    ((fold.kernel recurrence warp m).map Sigma.fst).Nodup := by
  by_cases hcommit : (fold.row warp.y).commitColumns = 0
  · rw [kernel, if_pos hcommit]
    exact nodup_nil
  rw [kernel_eq recurrence hcommit, map_append, nodup_append]
  refine ⟨storeTile_cells, publish_cells hfits hw m _, ?_⟩
  rintro cell hstate cell' hconv rfl
  obtain ⟨write, hwrite, hcell⟩ := mem_map.mp hstate
  obtain ⟨write', hwrite', hcell'⟩ := mem_map.mp hconv
  obtain ⟨r, d, rfl⟩ := mem_storeTile.mp hwrite
  obtain ⟨-, lane, -, s, rfl⟩ := mem_publish.mp hwrite'
  cases hcell.trans hcell'.symm

/-- The cells a launch writes, warp after warp. -/
def targets (recurrence : Recurrence F B) (fold : Fold)
    (order : List Warp) (m : Memory F B) : List Cell :=
  order.flatMap fun warp => (fold.kernel recurrence warp m).map Sigma.fst

section

variable {order : List Warp} (horder : order.Perm fold.grid) (m : Memory F B)
include horder

omit hfits in
theorem mem_targets {cell : Cell} :
    cell ∈ targets recurrence fold order m ↔
      ∃ warp, fold.Runs warp ∧ (fold.row warp.y).commitColumns ≠ 0 ∧
        fold.Own warp cell := by
  obtain ⟨hall, -, hmem⟩ := order_runs horder
  rw [targets, mem_flatMap]
  constructor
  · rintro ⟨warp, hwarp, hcell⟩
    obtain ⟨write, hwrite, rfl⟩ := mem_map.mp hcell
    obtain ⟨hcommit, ⟨r, d, rfl⟩ | ⟨hblock, lane, hlane, s, rfl⟩⟩ :=
      (mem_kernel recurrence).mp hwrite
    · exact ⟨warp, hall warp hwarp, hcommit, .state r d rfl⟩
    · exact ⟨warp, hall warp hwarp, hcommit, .conv lane s hlane hblock rfl⟩
  · rintro ⟨warp, hw, hcommit, hown⟩
    refine ⟨warp, hmem warp hw, ?_⟩
    cases hown with
    | state r d hcell =>
      subst hcell
      exact mem_map.mpr ⟨_, (mem_kernel recurrence).mpr
        ⟨hcommit, .inl ⟨r, d, rfl⟩⟩, rfl⟩
    | conv lane s hlane hblock hcell =>
      subst hcell
      exact mem_map.mpr ⟨_, (mem_kernel recurrence).mpr
        ⟨hcommit, .inr ⟨hblock, lane, hlane, s, rfl⟩⟩, rfl⟩

/-- No cell is written twice. -/
theorem targets_nodup : (targets recurrence fold order m).Nodup := by
  obtain ⟨hall, hnodup, -⟩ := order_runs horder
  have hapart := fold_apart recurrence hfits
  rw [targets, nodup_flatMap]
  refine ⟨fun warp hwarp => kernel_cells recurrence hfits (hall warp hwarp)
    m, hnodup.imp_of_mem ?_⟩
  intro warp warp' hwarp hwarp' hne cell hcell hcell'
  obtain ⟨write, hwrite, rfl⟩ := mem_map.mp hcell
  obtain ⟨write', hwrite', hsame⟩ := mem_map.mp hcell'
  have hown := hapart.inside (hall warp hwarp) hwrite
  have hown' := hapart.inside (hall warp' hwarp') hwrite'
  exact hne (Own.unique hfits (hall warp hwarp) (hall warp' hwarp') hown
    (hsame ▸ hown'))

end

end Fold

end Ginfer.Ops.GdnReplay
