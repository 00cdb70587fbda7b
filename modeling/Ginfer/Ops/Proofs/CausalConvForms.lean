/-
Every form of the convolution is the token-by-token form.

Each kernel is canonical for its rows (`decode_canonical` and the lemmas
after it): the serial ones by an induction over their loop
(`sequence_loop`), the parallel ones because a column of the history or the
input is a tap of the window (`column_tap`). Only the output kernels of the
prefill share a channel among threads; they read nothing that is written
while they run (`outputs_run`). So a chunk leaves the windows and the
outputs of its columns (`form_leaves`), and chunks that begin where the
last one ended compose.
-/
import Mathlib.Order.Nat
import Ginfer.Ops.Proofs.CausalConv
import Ginfer.Ops.Proofs.GqaAttentionDecode

namespace Ginfer.Ops.CausalConv

open Ginfer.Lib List
open Ginfer.Lib.Launch

variable {B : Type} {op : Op B}

-- ============ the grids

variable {block : Nat}

theorem le_gridFor (n : Nat) (hblock : 0 < block) : n ≤ gridFor n block * block :=
  (le_divUp_mul n hblock).trans (Nat.mul_le_mul_right block (le_max_right _ _))

theorem stridePrograms_covers {rows : Rows} (hbatch : rows.batch = 1) :
    Covers op rows (stridePrograms op.C) := by
  have hstride : 0 < gridFor op.C 256 * 256 :=
    Nat.mul_pos (Nat.lt_of_lt_of_le Nat.one_pos (Nat.le_max_left _ _)) (by decide)
  constructor
  · exact (gridStride_nodup hstride).map fun c c' h => (Prod.mk.inj h).2
  · intro i hi
    obtain ⟨c, -, rfl⟩ := mem_map.mp hi
    exact hbatch ▸ Nat.one_pos
  · intro row hrow c hc
    obtain rfl : row = 0 := by omega
    exact mem_map.mpr ⟨c, (mem_gridStride hstride).mpr hc, rfl⟩

theorem channelPrograms_covers {rows : Rows} (hblock : 0 < block) :
    Covers op rows (channelPrograms rows.batch op.C block) := by
  have hgrid := le_gridFor op.C hblock
  constructor
  · exact nodup_range.product nodup_range
  · intro i hi
    exact mem_range.mp (mem_product.mp hi).1
  · intro row hrow c hc
    exact mem_product.mpr ⟨mem_range.mpr hrow, mem_range.mpr (by omega)⟩

-- ============ the rows

/-- A row of some columns, whose window goes from one slot to another. -/
def single (input output width T : Nat) : Rows where
  batch := 1
  width := width
  initial := fun _ => input
  columns := fun _ => T
  published := fun _ => [(output, T)]

/-- A batch of rows, which publish a window behind every valid column. -/
def Batch.rows (b : Batch) : Rows where
  batch := b.batch
  width := b.width
  initial := b.initialStateSlots
  columns := fun row => min (b.valid row) b.width
  published := fun row => (List.range (min (b.valid row) b.width)).map
    fun t => (b.snapshotBaseSlots row + t, t + 1)

theorem single_separated (input output width T : Nat) :
    (single input output width T).Separated where
  own := by
    intro row _ p hp q hq _
    rw [mem_singleton.mp hp, mem_singleton.mp hq]
  initial := by
    intro row hrow row' hrow' hne
    exact absurd ((Nat.lt_one_iff.mp hrow).trans
      (Nat.lt_one_iff.mp hrow').symm) hne
  published := by
    intro row hrow row' hrow' hne
    exact absurd ((Nat.lt_one_iff.mp hrow).trans
      (Nat.lt_one_iff.mp hrow').symm) hne

/-- The reservations of the rows do not meet, and no row overwrites
another row's initial slot. -/
structure Batch.Reserved (b : Batch) : Prop where
  disjoint : ∀ row < b.batch, ∀ row' < b.batch, row ≠ row' →
    b.snapshotBaseSlots row + b.width ≤ b.snapshotBaseSlots row'
      ∨ b.snapshotBaseSlots row' + b.width ≤ b.snapshotBaseSlots row
  initial : ∀ row < b.batch, ∀ row' < b.batch, row ≠ row' →
    ∀ t < min (b.valid row) b.width,
      b.snapshotBaseSlots row + t ≠ b.initialStateSlots row'

variable {b : Batch}

theorem Batch.mem_published {row : Nat} {p : Nat × Nat} :
    p ∈ b.rows.published row ↔
      ∃ t < min (b.valid row) b.width,
        p = (b.snapshotBaseSlots row + t, t + 1) := by
  show p ∈ (range (min (b.valid row) b.width)).map
    (fun t => (b.snapshotBaseSlots row + t, t + 1)) ↔ _
  rw [mem_map]
  constructor
  · rintro ⟨t, ht, rfl⟩
    exact ⟨t, mem_range.mp ht, rfl⟩
  · rintro ⟨t, ht, rfl⟩
    exact ⟨t, mem_range.mpr ht, rfl⟩

theorem Batch.Reserved.separated (h : b.Reserved) :
    b.rows.Separated where
  own := by
    intro row _ p hp q hq heq
    obtain ⟨t, -, rfl⟩ := Batch.mem_published.mp hp
    obtain ⟨t', -, rfl⟩ := Batch.mem_published.mp hq
    show t + 1 = t' + 1
    change b.snapshotBaseSlots row + t = b.snapshotBaseSlots row + t' at heq
    omega
  initial := by
    intro row hrow row' hrow' hne p hp
    obtain ⟨t, ht, rfl⟩ := Batch.mem_published.mp hp
    exact h.initial row hrow row' hrow' hne t ht
  published := by
    intro row hrow row' hrow' hne p hp q hq
    obtain ⟨t, ht, rfl⟩ := Batch.mem_published.mp hp
    obtain ⟨t', ht', rfl⟩ := Batch.mem_published.mp hq
    have hdisjoint := h.disjoint row hrow row' hrow' hne
    show b.snapshotBaseSlots row + t ≠ b.snapshotBaseSlots row' + t'
    omega

-- ============ the stores

variable {T : Nat} {write : (_ : Cell) × B} {m : Memory B}

/-- The stores of a row that ends in one slot. -/
theorem mem_single {input output width c : Nat} (hc : c < op.C) :
    write ∈ canonical op (single input output width T) (0, c) m ↔
      (∃ t < width, write = ⟨.out (t * op.C + c),
        if t < T then
          op.convolve c (op.windowAfter (op.load m input c) 0 c t)
            (op.input 0 c t)
        else op.zero⟩)
      ∨ write ∈ op.store output c
        (op.windowAfter (op.load m input c) 0 c T) := by
  rw [mem_canonical hc]
  have hbase : 0 * (single input output width T).width * op.C = 0 := by
    rw [zero_mul, zero_mul]
  rw [hbase]
  refine or_congr ?_ ?_
  · simp only [zero_add]
    exact Iff.rfl
  · constructor
    · rintro ⟨p, hp, hwrite⟩
      rw [mem_singleton.mp hp] at hwrite
      exact hwrite
    · exact fun hwrite => ⟨_, mem_singleton_self _, hwrite⟩

/-- What a column of a row of a batch stores. -/
def Batch.columnStores (op : Op B) (b : Batch) (w : Window B)
    (row c t : Nat) : Stores B :=
  let rowBase := row * b.width * op.C
  if b.valid row ≤ t then [⟨.out (rowBase + t * op.C + c), op.zero⟩]
  else
    ⟨.out (rowBase + t * op.C + c),
        op.convolve c (op.windowAfter w rowBase c t) (op.input rowBase c t)⟩
      :: op.store (b.snapshotBaseSlots row + t) c
        (op.windowAfter w rowBase c (t + 1))

/-- The stores of a row of a batch, column by column. -/
theorem mem_columnStores {row c : Nat} (hc : c < op.C) :
    write ∈ (List.range b.width).flatMap (b.columnStores op
        (op.load m (b.initialStateSlots row) c) row c) ↔
      write ∈ canonical op b.rows (row, c) m := by
  rw [mem_canonical hc, mem_flatMap]
  constructor
  · rintro ⟨t, ht, hwrite⟩
    have ht := mem_range.mp ht
    unfold Batch.columnStores at hwrite
    by_cases hmasked : b.valid row ≤ t
    · rw [if_pos hmasked] at hwrite
      refine .inl ⟨t, ht, (mem_singleton.mp hwrite).trans ?_⟩
      rw [if_neg (show ¬ t < b.rows.columns row by
        show ¬ t < min (b.valid row) b.width
        omega)]
      rfl
    · rw [if_neg hmasked] at hwrite
      have hvalid : t < min (b.valid row) b.width := by omega
      rcases mem_cons.mp hwrite with rfl | hstore
      · refine .inl ⟨t, ht, ?_⟩
        rw [if_pos (show t < b.rows.columns row from hvalid)]
        rfl
      · exact .inr ⟨(b.snapshotBaseSlots row + t, t + 1),
          Batch.mem_published.mpr ⟨t, hvalid, rfl⟩, hstore⟩
  · rintro (⟨t, ht, rfl⟩ | ⟨p, hp, hstore⟩)
    · refine ⟨t, mem_range.mpr ht, ?_⟩
      unfold Batch.columnStores
      change t < b.width at ht
      by_cases hmasked : b.valid row ≤ t
      · rw [if_pos hmasked, if_neg (show ¬ t < b.rows.columns row by
            show ¬ t < min (b.valid row) b.width
            omega)]
        exact mem_singleton.mpr rfl
      · rw [if_neg hmasked, if_pos (show t < b.rows.columns row by
            show t < min (b.valid row) b.width
            omega)]
        exact .head _
    · obtain ⟨t, ht, rfl⟩ := Batch.mem_published.mp hp
      refine ⟨t, mem_range.mpr (by omega), ?_⟩
      unfold Batch.columnStores
      rw [if_neg (by omega)]
      exact .tail _ hstore

-- ============ the decode

theorem windowAfter_succ (w : Window B) (rowBase c n : Nat) :
    op.windowAfter w rowBase c (n + 1)
      = (op.windowAfter w rowBase c n).push (op.input rowBase c n) := by
  unfold Op.windowAfter
  rw [range_succ, map_append, Window.after_append]
  rfl

theorem mem_decodeBody {input output c : Nat} (hc : c < op.C) :
    write ∈ decodeBody op input output c m ↔
      write ∈ canonical op (single input output 1 1) (0, c) m := by
  have hinput : op.input 0 c 0 = op.x c := by
    unfold Op.input
    rw [Nat.zero_mul, Nat.zero_add]
  rw [mem_single hc]
  unfold decodeBody
  rw [mem_cons]
  refine or_congr ?_ ?_
  · constructor
    · rintro rfl
      refine ⟨0, Nat.one_pos, ?_⟩
      rw [if_pos Nat.one_pos, hinput, zero_mul, zero_add]
      rfl
    · rintro ⟨t, ht, rfl⟩
      obtain rfl := Nat.lt_one_iff.mp ht
      rw [if_pos Nat.one_pos, hinput, zero_mul, zero_add]
      rfl
  · rw [windowAfter_succ, hinput]
    exact Iff.rfl

variable {kernel : Kernel B}

/-- The kernels of one column. -/
theorem decode_canonical {input output : Nat}
    (hprograms : kernel.programs = stridePrograms op.C)
    (hbody : ∀ row c, kernel.body (row, c) = decodeBody op input output c) :
    kernel.Canonical op (single input output 1 1) where
  covers := hprograms ▸ stridePrograms_covers rfl
  stores := by
    intro row c hrow m write hmem
    obtain rfl := Nat.lt_one_iff.mp hrow
    rw [hprograms] at hmem
    obtain ⟨c', hc', heq⟩ := mem_map.mp hmem
    obtain ⟨-, rfl⟩ := Prod.mk.inj heq
    have hstride : 0 < gridFor op.C 256 * 256 :=
      Nat.mul_pos (Nat.lt_of_lt_of_le Nat.one_pos (Nat.le_max_left _ _))
        (by decide)
    rw [hbody]
    exact mem_decodeBody ((mem_gridStride hstride).mp hc')

-- ============ the serial

/-- A loop over columns, with those that are not valid. -/
theorem sequence_loop (rowBase c valid : Nat)
    (publish : Nat → Window B → Stores B) (w : Window B) (n : Nat) :
    (List.range n).foldl (fun loop column =>
        if valid ≤ column then
        { loop with stores := loop.stores ++
            [⟨.out (rowBase + column * op.C + c), op.zero⟩] }
        else sequenceStep op rowBase c publish loop column) ⟨w, []⟩
      = ⟨op.windowAfter w rowBase c (min n valid),
        (List.range n).flatMap fun t =>
          if valid ≤ t then [⟨.out (rowBase + t * op.C + c), op.zero⟩]
          else
            ⟨.out (rowBase + t * op.C + c),
                op.convolve c (op.windowAfter w rowBase c t)
                  (op.input rowBase c t)⟩
              :: publish t (op.windowAfter w rowBase c (t + 1))⟩ := by
  induction n with
  | zero =>
    rw [Nat.zero_min]
    rfl
  | succ n ih =>
    rw [range_succ, foldl_append, ih, flatMap_append,
      foldl_cons, foldl_nil, flatMap_cons,
      flatMap_nil, append_nil]
    by_cases hmasked : valid ≤ n
    · rw [if_pos hmasked, if_pos hmasked,
        Nat.min_eq_right (by omega : valid ≤ n + 1), Nat.min_eq_right hmasked]
    · rw [if_neg hmasked, if_neg hmasked,
        Nat.min_eq_left (by omega : n + 1 ≤ valid),
        Nat.min_eq_left (by omega : n ≤ valid), windowAfter_succ]
      rfl

/-- A loop whose columns are all valid. -/
theorem sequence_loop_all (rowBase c : Nat)
    (publish : Nat → Window B → Stores B) (w : Window B) (n : Nat) :
    (List.range n).foldl (sequenceStep op rowBase c publish) ⟨w, []⟩
      = ⟨op.windowAfter w rowBase c n, (List.range n).flatMap fun t =>
        ⟨.out (rowBase + t * op.C + c),
            op.convolve c (op.windowAfter w rowBase c t) (op.input rowBase c t)⟩
          :: publish t (op.windowAfter w rowBase c (t + 1))⟩ := by
  have hmasked := @sequence_loop B op rowBase c n publish w n
  rw [Nat.min_self] at hmasked
  refine Eq.trans (foldl_ext _ _ _ fun loop t ht => ?_)
    (hmasked.trans (congrArg _ (flatMap_congr fun t ht => ?_)))
  · have := mem_range.mp ht
    rw [if_neg (by omega)]
  · have := mem_range.mp ht
    rw [if_neg (by omega)]

/-- Programs with a channel, in the grid of a kernel. -/
theorem channel_canonical {rows : Rows} (hblock : 0 < block)
    (hprograms : kernel.programs = channelPrograms rows.batch op.C block)
    (hout : ∀ row c m, op.C ≤ c → kernel.body (row, c) m = [])
    (hin : ∀ row c m write, row < rows.batch → c < op.C →
      (write ∈ kernel.body (row, c) m ↔ write ∈ canonical op rows (row, c) m)) :
    kernel.Canonical op rows where
  covers := hprograms ▸ channelPrograms_covers hblock
  stores := by
    intro row c hrow m write _
    by_cases hc : op.C ≤ c
    · rw [hout row c m hc]
      unfold canonical
      rw [if_pos hc]
    · exact hin row c m write hrow (by omega)

/-- The outputs of a loop without snapshots. -/
theorem mem_outputs {w : Window B} {c : Nat} :
    write ∈ (List.range T).flatMap (fun t =>
        [(⟨.out (t * op.C + c), op.convolve c (op.windowAfter w 0 c t)
        (op.input 0 c t)⟩ : (_ : Cell) × B)]) ↔
      ∃ t < T, write = ⟨.out (t * op.C + c),
        if t < T then
        op.convolve c (op.windowAfter w 0 c t) (op.input 0 c t)
        else op.zero⟩ := by
  rw [mem_flatMap]
  constructor
  · rintro ⟨t, ht, hwrite⟩
    have ht := mem_range.mp ht
    refine ⟨t, ht, ?_⟩
    rw [if_pos ht]
    exact mem_singleton.mp hwrite
  · rintro ⟨t, ht, rfl⟩
    refine ⟨t, mem_range.mpr ht, ?_⟩
    rw [if_pos ht]
    exact mem_singleton.mpr rfl

theorem sequence_canonical (input output T : Nat) :
    (sequenceKernel op input output T).Canonical op
      (single input output T T) := by
  refine channel_canonical (by split <;> decide) rfl (fun _ c m hc => if_pos hc) ?_
  intro row c m write hrow hc
  obtain rfl := Nat.lt_one_iff.mp hrow
  rw [mem_single hc, ← mem_outputs, ← mem_append]
  show write ∈ (if op.C ≤ c then [] else _) ↔ _
  rw [if_neg (by omega)]
  dsimp only
  rw [sequence_loop_all]
  simp only [zero_add]

/-- A batch of one row whose columns are all valid. -/
def oneRow (initial base T : Nat) : Batch where
  batch := 1
  width := T
  validColumns := none
  initialStateSlots := fun _ => initial
  snapshotBaseSlots := fun _ => base

theorem oneRow_reserved (initial base T : Nat) :
    (oneRow initial base T).Reserved where
  disjoint := by
    intro row hrow row' hrow' hne
    exact absurd ((Nat.lt_one_iff.mp hrow).trans
      (Nat.lt_one_iff.mp hrow').symm) hne
  initial := by
    intro row hrow row' hrow' hne
    exact absurd ((Nat.lt_one_iff.mp hrow).trans
      (Nat.lt_one_iff.mp hrow').symm) hne

variable {base : Nat}

/-- The stores of its columns. -/
theorem oneRow_columnStores {initial c : Nat} (w : Window B) :
    (List.range (oneRow initial base T).width).flatMap
        ((oneRow initial base T).columnStores op w 0 c)
      = (List.range T).flatMap fun t =>
        ⟨.out (t * op.C + c), op.convolve c (op.windowAfter w 0 c t)
            (op.input 0 c t)⟩
          :: op.store (base + t) c (op.windowAfter w 0 c (t + 1)) := by
  refine flatMap_congr fun t ht => ?_
  have ht : t < T := mem_range.mp ht
  unfold Batch.columnStores
  have hbase : 0 * (oneRow initial base T).width * op.C = 0 := by
    rw [zero_mul, zero_mul]
  rw [if_neg (show ¬ (oneRow initial base T).valid 0 ≤ t by
    show ¬ T ≤ t
    omega), hbase, zero_add]
  rfl

theorem sequenceSnapshot_canonical (initial base T : Nat) :
    (sequenceSnapshotKernel op initial base T).Canonical op
      (oneRow initial base T).rows := by
  refine channel_canonical (by decide) rfl (fun _ c m hc => if_pos hc) ?_
  intro row c m write hrow hc
  obtain rfl := Nat.lt_one_iff.mp hrow
  rw [← mem_columnStores hc, oneRow_columnStores]
  show write ∈ (if op.C ≤ c then [] else _) ↔ _
  rw [if_neg (by omega), sequence_loop_all]
  simp only [zero_add]
  exact Iff.rfl

theorem batchedSequenceSnapshot_canonical (b : Batch) :
    (batchedSequenceSnapshotKernel op b).Canonical op b.rows := by
  refine channel_canonical (by split <;> decide) rfl (fun _ c m hc => if_pos hc) ?_
  intro row c m write hrow hc
  rw [← mem_columnStores hc]
  show write ∈ (if op.C ≤ c then [] else _) ↔ _
  rw [if_neg (by omega)]
  dsimp only
  rw [sequence_loop]
  exact Iff.rfl

-- ============ the parallel

/-- A column of the history or of the input is a tap. -/
theorem column_tap {slot rowBase c i : Nat} {p : Int}
    (hp : p = (i : Int) - 3) :
    op.column (op.history m slot c) rowBase c p
      = (op.load m slot c).tap (op.input rowBase c) i := by
  unfold Op.column Window.tap Op.history Op.load Op.input
  by_cases h0 : i = 0
  · subst h0
    rw [if_pos (by omega), if_pos rfl, show (p + 3).toNat = 0 by omega,
      zero_mul, add_zero]
  by_cases h1 : i = 1
  · subst h1
    rw [if_pos (by omega), if_neg h0, if_pos rfl,
      show (p + 3).toNat = 1 by omega, one_mul]
  by_cases h2 : i = 2
  · subst h2
    rw [if_pos (by omega), if_neg h0, if_neg h1, if_pos rfl,
      show (p + 3).toNat = 2 by omega]
  · rw [if_neg (by omega), if_neg h0, if_neg h1, if_neg h2,
      show p.toNat = i - 3 by omega]

variable {t : Nat}

/-- The output of the thread of a column. -/
theorem smallt_convolve {slot rowBase c : Nat} :
    op.smallt (op.history m slot c) rowBase c t
      = op.convolve c (op.windowAfter (op.load m slot c) rowBase c t)
        (op.input rowBase c t) := by
  rw [convolve_windowAfter]
  unfold Op.smallt
  rw [column_tap (i := t) rfl, column_tap (i := t + 1) (by omega),
    column_tap (i := t + 2) (by omega)]
  rfl

/-- Three elements of a slot that are taps are a window. -/
theorem map_store {slot c n : Nat} {w : Window B} {rowBase : Nat} {v : Nat → B}
    (hv : ∀ s < 3, v s = w.tap (op.input rowBase c) (n + s)) :
    (List.range 3).map (fun s =>
        (⟨.state (slot * op.slotStride + s * op.C + c), v s⟩ : (_ : Cell) × B))
      = op.store slot c (op.windowAfter w rowBase c n) := by
  unfold Op.windowAfter
  rw [after_taps]
  show [(⟨.state (slot * op.slotStride + 0 * op.C + c), v 0⟩ : (_ : Cell) × B),
    ⟨.state (slot * op.slotStride + 1 * op.C + c), v 1⟩,
    ⟨.state (slot * op.slotStride + 2 * op.C + c), v 2⟩] = _
  rw [hv 0 (by decide), hv 1 (by decide), hv 2 (by decide), zero_mul,
    add_zero, one_mul]
  rfl

/-- A thread of a column of a snapshot kernel. -/
theorem snapshot_store {slot rowBase c : Nat} :
    (List.range 3).map (fun s =>
        (⟨.state (base * op.slotStride + s * op.C + c),
        op.column (op.history m slot c) rowBase c
          ((t : Int) - 2 + (s : Nat))⟩ : (_ : Cell) × B))
      = op.store base c (op.windowAfter (op.load m slot c) rowBase c (t + 1)) :=
  map_store fun s _ => column_tap (by omega)

theorem snapshotSmallt_canonical (initial base T : Nat) :
    (snapshotSmalltKernel op initial base T).Canonical op
      (oneRow initial base T).rows := by
  refine channel_canonical (by decide) rfl (fun _ c m hc => if_pos hc) ?_
  intro row c m write hrow hc
  obtain rfl := Nat.lt_one_iff.mp hrow
  rw [← mem_columnStores hc, oneRow_columnStores]
  show write ∈ (if op.C ≤ c then [] else _) ↔ _
  rw [if_neg (by omega)]
  dsimp only
  simp only [smallt_convolve, snapshot_store]
  exact Iff.rfl

theorem batchedSnapshotSmallt_canonical (b : Batch) :
    (batchedSnapshotSmalltKernel op b).Canonical op b.rows := by
  refine channel_canonical (by decide) rfl (fun _ c m hc => if_pos hc) ?_
  intro row c m write hrow hc
  rw [← mem_columnStores hc]
  show write ∈ (if op.C ≤ c then [] else _) ↔ _
  rw [if_neg (by omega)]
  dsimp only
  simp only [smallt_convolve, snapshot_store]
  exact Iff.rfl

theorem smallt_canonical {input output : Nat} (hT : 0 < T) :
    (smalltKernel op input output T).Canonical op
      (single input output T T) := by
  refine channel_canonical (by decide) rfl (fun _ c m hc => if_pos hc) ?_
  intro row c m write hrow hc
  obtain rfl := Nat.lt_one_iff.mp hrow
  have hfinal : (range 3).map (fun s =>
        (⟨.state (output * op.slotStride + s * op.C + c),
          op.column (op.history m input c) 0 c ((T : Int) - 3 + (s : Nat))⟩
            : (_ : Cell) × B))
      = op.store output c (op.windowAfter (op.load m input c) 0 c T) :=
    map_store fun s _ => column_tap (by omega)
  rw [mem_single hc, ← mem_outputs]
  show write ∈ (if op.C ≤ c then [] else _) ↔ _
  rw [if_neg (by omega)]
  dsimp only
  simp only [smallt_convolve, hfinal, mem_flatMap, mem_cons]
  constructor
  · rintro ⟨t, ht, rfl | hstore⟩
    · exact .inl ⟨t, ht, .inl rfl⟩
    · split at hstore
      · exact .inr hstore
      · cases hstore
  · rintro (⟨t, ht, hwrite⟩ | hstore)
    · exact ⟨t, ht, .inl (hwrite.resolve_right (not_mem_nil))⟩
    · exact ⟨0, mem_range.mpr hT, .inr hstore⟩

-- ============ the prefill

theorem prefillState_canonical (input output T : Nat) :
    (prefillStateKernel op input output T).Canonical op
      (single input output 0 T) where
  covers := stridePrograms_covers rfl
  stores := by
    intro row c hrow m write hmem
    obtain rfl := Nat.lt_one_iff.mp hrow
    obtain ⟨c', hc', heq⟩ := mem_map.mp hmem
    obtain ⟨-, rfl⟩ := Prod.mk.inj heq
    have hstride : 0 < gridFor op.C 256 * 256 :=
      Nat.mul_pos (Nat.lt_of_lt_of_le Nat.one_pos (Nat.le_max_left _ _))
        (by decide)
    rw [mem_single ((mem_gridStride hstride).mp hc')]
    have hstores : (prefillStateKernel op input output T).body (0, c') m
        = op.store output c'
          (op.windowAfter (op.load m input c') 0 c' T) := by
      refine map_store (v := fun s =>
        if T + s = 0 then (op.load m input c').s0
        else if T + s = 1 then (op.load m input c').s1
        else if T + s = 2 then (op.load m input c').s2
        else op.x ((T + s - 3) * op.C + c')) fun s _ => ?_
      unfold Window.tap Op.input
      rw [zero_add]
    rw [hstores]
    exact ⟨.inr, fun h => h.resolve_left fun ⟨t, ht, _⟩ =>
      absurd ht (Nat.not_lt_zero t)⟩

/-- Programs that write outputs only, each the value of its element, and
read none: the states are kept, and what is written has its value. -/
theorem outputs_run {body : Nat × Nat → Memory B → Stores B}
    {order : List (Nat × Nat)} (m : Memory B) (value : Nat → B)
    (hvalue : ∀ i ∈ order, ∀ m' : Memory B,
      (∀ a, m' (.state a) = m (.state a)) →
        ∀ write ∈ body i m', ∃ a, write = ⟨.out a, value a⟩) :
    (∀ a, run (β := fun _ => B) body order m (.state a) = m (.state a))
      ∧ ∀ a, (∃ i ∈ order, ∀ m' : Memory B,
          (∀ a, m' (.state a) = m (.state a)) →
            ∃ write ∈ body i m', write.1 = .out a)
        → run (β := fun _ => B) body order m (.out a) = value a := by
  -- the elements that have been written keep their value
  suffices hrun : ∀ m' : Memory B, (∀ a, m' (.state a) = m (.state a)) →
      (∀ a, run (β := fun _ => B) body order m' (.state a) = m (.state a))
        ∧ ∀ a, (m' (.out a) = value a ∨ ∃ i ∈ order, ∀ m' : Memory B,
            (∀ a, m' (.state a) = m (.state a)) →
              ∃ write ∈ body i m', write.1 = .out a)
          → run (β := fun _ => B) body order m' (.out a) = value a by
    obtain ⟨hstate, hout⟩ := hrun m fun _ => rfl
    exact ⟨hstate, fun a h => hout a (.inr h)⟩
  induction order with
  | nil =>
    intro m' hm
    refine ⟨hm, fun a h => h.resolve_right ?_⟩
    rintro ⟨i, hi, -⟩
    cases hi
  | cons i rest ih =>
    intro m' hm
    have hwrites := hvalue i (.head _) m' hm
    have hkept : ∀ a, commit (β := fun _ => B) m' (body i m') (.state a)
        = m (.state a) := by
      intro a
      refine (commit_of_ne fun write hwrite => ?_).trans (hm a)
      obtain ⟨a', rfl⟩ := hwrites write hwrite
      exact nofun
    obtain ⟨hstate, hout⟩ := ih (fun j hj => hvalue j (.tail _ hj)) _ hkept
    refine ⟨hstate, fun a h => hout a ?_⟩
    by_cases hnow : ∃ write ∈ body i m', write.1 = .out a
    · obtain ⟨write, hwrite, hcell⟩ := hnow
      obtain ⟨a', rfl⟩ := hwrites write hwrite
      cases hcell
      refine .inl (commit_of_mem hwrite ?_)
      intro other hother heq
      obtain ⟨a'', rfl⟩ := hwrites other hother
      cases heq
      rfl
    · rcases h with hvalue | ⟨j, hj, hwriter⟩
      · refine .inl ((commit_of_ne fun write hwrite heq => ?_).trans hvalue)
        exact hnow ⟨write, hwrite, heq⟩
      · rcases mem_cons.mp hj with rfl | hj
        · exact absurd (hwriter m' hm) hnow
        · exact .inr ⟨j, hj, hwriter⟩

/-- The output of a column from its taps, as the output kernels look them
up. -/
theorem prefill_taps {input c : Nat} :
    op.taps c (if 3 ≤ t then op.x ((t - 3) * op.C + c)
        else m (.state (input * op.slotStride + t * op.C + c)))
        (if 2 ≤ t then op.x ((t - 2) * op.C + c)
        else m (.state (input * op.slotStride + (t + 1) * op.C + c)))
        (if 1 ≤ t then op.x ((t - 1) * op.C + c)
        else m (.state (input * op.slotStride + (t + 2) * op.C + c)))
        (op.x (t * op.C + c))
      = op.convolve c (op.windowAfter (op.load m input c) 0 c t)
        (op.input 0 c t) := by
  have htap : ∀ i : Nat, (if 3 ≤ i then op.x ((i - 3) * op.C + c)
      else m (.state (input * op.slotStride + i * op.C + c)))
        = (op.load m input c).tap (op.input 0 c) i := by
    intro i
    rw [← @column_tap B op m input 0 c i _ rfl]
    unfold Op.column Op.history
    by_cases hi : 3 ≤ i
    · rw [if_pos hi, if_neg (by omega), zero_add,
        show ((i : Int) - 3).toNat = i - 3 by omega]
    · rw [if_neg hi, if_pos (by omega),
        show ((i : Int) - 3 + 3).toNat = i by omega]
  have h1 := htap (t + 1)
  have h2 := htap (t + 2)
  rw [show t + 1 - 3 = t - 2 by omega] at h1
  rw [show t + 2 - 3 = t - 1 by omega] at h2
  rw [convolve_windowAfter, ← htap t, ← h1, ← h2]
  unfold Op.input
  rw [zero_add]
  simp only [show 3 ≤ t + 1 ↔ 2 ≤ t by omega, show 3 ≤ t + 2 ↔ 1 ≤ t by omega]

/-- The value of an output. -/
def outValue (op : Op B) (m : Memory B) (input a : Nat) : B :=
  op.convolve (a % op.C)
    (op.windowAfter (op.load m input (a % op.C)) 0 (a % op.C) (a / op.C))
    (op.input 0 (a % op.C) (a / op.C))

theorem outValue_eq {input c : Nat} (hc : c < op.C) :
    outValue op m input (t * op.C + c)
      = op.convolve c (op.windowAfter (op.load m input c) 0 c t)
        (op.input 0 c t) := by
  have hpos : 0 < op.C := by omega
  have hcolumn : (t * op.C + c) % op.C = c := by
    rw [mul_comm, Nat.mul_add_mod, Nat.mod_eq_of_lt hc]
  have hrow : (t * op.C + c) / op.C = t := by
    rw [mul_comm, Nat.mul_add_div hpos, Nat.div_eq_of_lt hc, add_zero]
  unfold outValue
  rw [hcolumn, hrow]

/-- A kernel that writes the outputs of some columns, and only these. -/
structure Kernel.Outputs (kernel : Kernel B) (op : Op B) (input T : Nat) :
    Prop where
  value : ∀ i m, ∀ write ∈ kernel.body i m, ∃ t < T, ∃ c < op.C,
    write = ⟨.out (t * op.C + c), op.convolve c
      (op.windowAfter (op.load m input c) 0 c t) (op.input 0 c t)⟩
  reached : ∀ t < T, ∀ c < op.C, ∃ i ∈ kernel.programs, ∀ m,
    ∃ write ∈ kernel.body i m, write.1 = .out (t * op.C + c)

theorem Kernel.Outputs.runs {input : Nat}
    (h : kernel.Outputs op input T) {m m' : Memory B}
    (hrun : kernel.Runs m m') :
    (∀ a, m' (.state a) = m (.state a))
      ∧ ∀ t < T, ∀ c < op.C, m' (.out (t * op.C + c))
        = op.convolve c (op.windowAfter (op.load m input c) 0 c t)
        (op.input 0 c t) := by
  obtain ⟨order, hperm, rfl⟩ := hrun
  obtain ⟨hstate, hout⟩ := @outputs_run B kernel.body order m (outValue op m input) (by
      intro i _ m' hm write hwrite
      obtain ⟨t, -, c, hc, rfl⟩ := h.value i m' write hwrite
      refine ⟨t * op.C + c, ?_⟩
      rw [outValue_eq hc, load_congr fun s _ => hm _])
  refine ⟨hstate, fun t ht c hc => ?_⟩
  obtain ⟨i, hi, hwrites⟩ := h.reached t ht c hc
  rw [hout _ ⟨i, hperm.mem_iff.mpr hi, fun m' _ => hwrites m'⟩, outValue_eq hc]

/-- A block and a thread for a column and a channel. -/
theorem prefill_program {n c : Nat} (ht : t < T) (hc : c < n) :
    ∃ i ∈ List.range (max 1 (divUp n 256 * T)) ×ˢ List.range 256,
      i.1 / divUp n 256 = t
        ∧ (i.1 - i.1 / divUp n 256 * divUp n 256) * 256 + i.2 = c := by
  have hcover := le_divUp_mul n (by decide : 0 < 256)
  have hblock : c / 256 < divUp n 256 := by omega
  have hquotient : (t * divUp n 256 + c / 256) / divUp n 256 = t := by
    rw [mul_comm, Nat.mul_add_div (by omega), Nat.div_eq_of_lt hblock, add_zero]
  refine ⟨(t * divUp n 256 + c / 256, c % 256), ?_, hquotient, ?_⟩
  · have hbefore := digits_lt ht hblock
    rw [mul_comm T] at hbefore
    exact mem_product.mpr ⟨mem_range.mpr
      (lt_of_lt_of_le hbefore (le_max_right _ _)),
      mem_range.mpr (Nat.mod_lt _ (by decide))⟩
  · show (t * divUp n 256 + c / 256
      - (t * divUp n 256 + c / 256) / divUp n 256 * divUp n 256) * 256
        + c % 256 = c
    rw [hquotient, Nat.add_sub_cancel_left]
    omega

theorem prefill_outputs (input T : Nat) :
    (prefillKernel op input T).Outputs op input T where
  value := by
    rintro ⟨block, thread⟩ m write hwrite
    unfold prefillKernel at hwrite
    dsimp only at hwrite
    split at hwrite
    · cases hwrite
    · next hin =>
      rw [not_or, not_le, not_le] at hin
      rw [mem_singleton.mp hwrite, prefill_taps]
      exact ⟨_, hin.1, _, hin.2, rfl⟩
  reached := by
    intro t ht c hc
    obtain ⟨⟨block, thread⟩, hi, hquotient, hchannel⟩ :=
      prefill_program ht hc
    refine ⟨(block, thread), hi, fun m => ?_⟩
    unfold prefillKernel
    dsimp only at hquotient hchannel ⊢
    rw [hchannel, hquotient, if_neg (by omega)]
    exact ⟨_, mem_singleton_self _, rfl⟩

/-- A pair of channels is two channels, where their number is even. -/
theorem prefillPairs_outputs {input : Nat} (heven : op.C % 2 = 0) :
    (prefillPairsKernel op input T).Outputs op input T where
  value := by
    rintro ⟨block, thread⟩ m write hwrite
    unfold prefillPairsKernel at hwrite
    dsimp only at hwrite
    generalize htoken : block / divUp (op.C / 2) 256 = t at hwrite
    generalize (block - t * divUp (op.C / 2) 256) * 256 + thread = p at hwrite
    split at hwrite
    · cases hwrite
    next hin =>
    rw [not_or, not_le, not_le] at hin
    obtain ⟨half, hhalf, hwrite⟩ := mem_flatMap.mp hwrite
    have hhalf : half < 2 := by
      rcases mem_cons.mp hhalf with rfl | hhalf
      · decide
      · rw [mem_singleton.mp hhalf]
        decide
    refine ⟨t, hin.1, 2 * p + half, by omega, ?_⟩
    rw [mem_singleton.mp hwrite, ← prefill_taps]
    -- a pair of the row `n` is two elements of it
    have hpair : ∀ n, 2 * (n * (op.C / 2) + p) + half
        = n * op.C + (2 * p + half) := by
      intro n
      have hC : op.C = 2 * (op.C / 2) := by omega
      have hmul : n * op.C = 2 * (n * (op.C / 2)) := by
        rw [← mul_assoc, mul_comm 2, mul_assoc, ← hC]
      omega
    have hone := hpair 1
    rw [one_mul, one_mul] at hone
    simp only [hpair, hone, ← add_assoc, Op.taps]
  reached := by
    intro t ht c hc
    have hp : c / 2 < op.C / 2 := by omega
    obtain ⟨⟨block, thread⟩, hi, hquotient, hchannel⟩ :=
      prefill_program ht hp
    refine ⟨(block, thread), hi, fun m => ?_⟩
    unfold prefillPairsKernel
    dsimp only at hquotient hchannel ⊢
    rw [hchannel, hquotient, if_neg (by omega)]
    have hC : t * op.C = 2 * (t * (op.C / 2)) := by
      rw [← mul_assoc, mul_comm 2, mul_assoc,
        show 2 * (op.C / 2) = op.C by omega]
    have hhalf : c % 2 ∈ [0, 1] := by
      rcases Nat.mod_two_eq_zero_or_one c with h | h
      · rw [h]
        decide
      · rw [h]
        decide
    refine ⟨_, mem_flatMap.mpr ⟨c % 2, hhalf,
      mem_singleton_self _⟩, congrArg Cell.out ?_⟩
    omega

-- ============ the forms

/-- What a form needs: columns, two slots for the kernel that may not work
in place, and reservations that are kept. -/
def Form.Admitted (op : Op B) : Form → Prop
  | .prefill pairs _ _ T => (pairs = true → op.C % 2 = 0) ∧ 0 < T
  | .sequence _ _ T => 0 < T
  | .smallt _ _ T => 0 < T
  | .decode _ => True
  | .decodeDistinct input output => input ≠ output
  | .snapshotDecode _ _ => True
  | .sequenceSnapshot _ _ T => 0 < T
  | .snapshotSmallt _ _ T => 0 < T
  | .batchedSequenceSnapshot b => 0 < b.width ∧ b.Reserved
  | .batchedSnapshotSmallt b => 0 < b.width ∧ b.Reserved

/-- The rows of a form. -/
def Form.rows : Form → Rows
  | .prefill _ input output T => single input output T T
  | .sequence input output T => single input output T T
  | .smallt input output T => single input output T T
  | .decode slot => single slot slot 1 1
  | .decodeDistinct input output => single input output 1 1
  | .snapshotDecode initial base => single initial base 1 1
  | .sequenceSnapshot initial base T => (oneRow initial base T).rows
  | .snapshotSmallt initial base T => (oneRow initial base T).rows
  | .batchedSequenceSnapshot b => b.rows
  | .batchedSnapshotSmallt b => b.rows

/-- The two launches of the prefill. -/
theorem prefill_leaves {input output c : Nat}
    (hT : 0 < T) (houtputs : kernel.Outputs op input T) (hc : c < op.C)
    {m m' : Memory B}
    (hrun : Runs [kernel, prefillStateKernel op input output T] m m') :
    Leaves op (single input output T T) 0 c m m' := by
  obtain ⟨middle, hout, last, hstate, rfl⟩ := hrun
  obtain ⟨hkept, hvalues⟩ := houtputs.runs hout
  have hload : ∀ slot, op.load middle slot c = op.load m slot c :=
    fun slot => load_congr fun s _ => hkept _
  obtain ⟨-, hpublished, hslots, hsilent⟩ :=
    (prefillState_canonical input output T).leaves
      (single_separated _ _ _ _) Nat.one_pos hc hstate
  have hbase : ∀ width, 0 * width * op.C = 0 := by
    intro width
    rw [zero_mul, zero_mul]
  refine ⟨?_, ?_, fun slot hslot => (hslots slot hslot).trans (hload slot), ?_⟩
  · intro t ht
    rw [hsilent rfl]
    show middle (.out (0 * T * op.C + t * op.C + c))
      = if t < T then
          op.convolve c (op.windowAfter (op.load m input c) (0 * T * op.C) c t)
            (op.input (0 * T * op.C) c t)
        else op.zero
    rw [hbase, zero_add, if_pos (show t < T from ht), hvalues t ht c hc]
  · intro p hp
    have h := hpublished p hp
    rw [hload] at h
    refine h.trans ?_
    show op.windowAfter _ (0 * 0 * op.C) c p.2
      = op.windowAfter _ (0 * T * op.C) c p.2
    rw [hbase, hbase]
    rfl
  · intro hwidth
    exact absurd hwidth (ne_of_gt hT)

variable {form : Form}

theorem Form.Admitted.separated (h : form.Admitted op) :
    form.rows.Separated := by
  cases form with
  | prefill _ input output T => exact single_separated _ _ _ _
  | sequence input output T => exact single_separated _ _ _ _
  | smallt input output T => exact single_separated _ _ _ _
  | decode slot => exact single_separated _ _ _ _
  | decodeDistinct input output => exact single_separated _ _ _ _
  | snapshotDecode initial base => exact single_separated _ _ _ _
  | sequenceSnapshot initial base T =>
    exact (oneRow_reserved initial base T).separated
  | snapshotSmallt initial base T =>
    exact (oneRow_reserved initial base T).separated
  | batchedSequenceSnapshot b => exact h.2.separated
  | batchedSnapshotSmallt b => exact h.2.separated

/-- What any form leaves of a channel of a row. -/
theorem form_leaves (hadmitted : form.Admitted op)
    {row c : Nat} (hrow : row < form.rows.batch) (hc : c < op.C)
    {m m' : Memory B} (hrun : Runs (form.kernels op) m m') :
    Leaves op form.rows row c m m' := by
  have hone : ∀ {kernel : Kernel B}, kernel.Canonical op form.rows →
      Runs [kernel] m m' → Leaves op form.rows row c m m' := by
    rintro kernel hcanonical ⟨next, hrun, rfl⟩
    exact hcanonical.leaves hadmitted.separated hrow hc hrun
  cases form with
  | prefill pairs input output T =>
    obtain ⟨heven, hT⟩ := hadmitted
    obtain rfl := Nat.lt_one_iff.mp hrow
    cases pairs with
    | true =>
      exact prefill_leaves hT (prefillPairs_outputs (heven rfl)) hc hrun
    | false => exact prefill_leaves hT (prefill_outputs input T) hc hrun
  | sequence input output T =>
    exact hone (sequence_canonical input output T) hrun
  | smallt input output T => exact hone (smallt_canonical hadmitted) hrun
  | decode slot => exact hone (decode_canonical rfl fun _ _ => rfl) hrun
  | decodeDistinct input output =>
    exact hone (decode_canonical rfl fun _ _ => rfl) hrun
  | snapshotDecode initial base =>
    exact hone (decode_canonical rfl fun _ _ => rfl) hrun
  | sequenceSnapshot initial base T =>
    exact hone (sequenceSnapshot_canonical initial base T) hrun
  | snapshotSmallt initial base T =>
    exact hone (snapshotSmallt_canonical initial base T) hrun
  | batchedSequenceSnapshot b =>
    exact hone (batchedSequenceSnapshot_canonical b) hrun
  | batchedSnapshotSmallt b =>
    exact hone (batchedSnapshotSmallt_canonical b) hrun

-- ============ the chunks

/-- A chunk of a sequence: the form it is computed with, its input, and the
row of the batch the sequence is. -/
structure Chunk (B : Type) where
  form : Form
  x : Nat → B
  row : Nat

namespace Chunk

variable (op) (chunk : Chunk B)

/-- The launches of the chunk. -/
def Runs (m m' : Memory B) : Prop :=
  CausalConv.Runs (chunk.form.kernels { op with x := chunk.x }) m m'

/-- The first element of the row. -/
def rowBase : Nat := chunk.row * chunk.form.rows.width * op.C

/-- The columns that count, with all their channels. -/
def columns : List (Nat → B) :=
  (List.range (chunk.form.rows.columns chunk.row)).map fun t c =>
    chunk.x (chunk.rowBase op + t * op.C + c)

end Chunk

/-- The slot where a chunk finds the state. -/
def Chunk.initial (chunk : Chunk B) : Nat :=
  chunk.form.rows.initial chunk.row

/-- The slot where it leaves it. -/
def Chunk.final (chunk : Chunk B) : Nat :=
  ((chunk.form.rows.published chunk.row).getLast?.map (·.1)).getD chunk.initial

/-- Where a snapshot form puts the snapshots of a row. -/
def Form.snapshotBase (row : Nat) : Form → Option Nat
  | .snapshotDecode _ base => some base
  | .sequenceSnapshot _ base _ => some base
  | .snapshotSmallt _ base _ => some base
  | .batchedSequenceSnapshot b => some (b.snapshotBaseSlots row)
  | .batchedSnapshotSmallt b => some (b.snapshotBaseSlots row)
  | _ => none

/-- A chunk that may be launched. -/
def Chunk.Admitted (op : Op B) (chunk : Chunk B) : Prop :=
  chunk.form.Admitted op ∧ chunk.row < chunk.form.rows.batch

/-- Every chunk begins where the one before it ended. -/
def Linked (slot : Nat) : List (Chunk B) → Prop
  | [] => True
  | chunk :: rest => chunk.initial = slot ∧ Linked chunk.final rest

/-- Chunks, one after the other. -/
def RunsAll (op : Op B) : List (Chunk B) → Memory B → Memory B → Prop
  | [], m, m' => m' = m
  | chunk :: rest, m, m' =>
    ∃ next, chunk.Runs op m next ∧ RunsAll op rest next m'

/-- The window behind the valid columns is the last that is published;
where none is valid, none is. -/
theorem published_last (form : Form) (row : Nat) :
    (form.rows.published row = [] ∧ form.rows.columns row = 0)
      ∨ ∃ slot, (form.rows.published row).getLast?
        = some (slot, form.rows.columns row) := by
  have hbatch : ∀ b : Batch,
      (b.rows.published row = [] ∧ b.rows.columns row = 0)
        ∨ ∃ slot, (b.rows.published row).getLast?
          = some (slot, b.rows.columns row) := by
    intro b
    show ((range (min (b.valid row) b.width)).map _ = []
        ∧ min (b.valid row) b.width = 0)
      ∨ ∃ slot, ((range (min (b.valid row) b.width)).map _).getLast?
        = some (slot, min (b.valid row) b.width)
    cases min (b.valid row) b.width with
    | zero => exact .inl ⟨rfl, rfl⟩
    | succ n =>
      refine .inr ⟨b.snapshotBaseSlots row + n, ?_⟩
      rw [range_succ, map_append]
      exact getLast?_concat
  cases form with
  | prefill _ input output T => exact .inr ⟨output, rfl⟩
  | sequence input output T => exact .inr ⟨output, rfl⟩
  | smallt input output T => exact .inr ⟨output, rfl⟩
  | decode slot => exact .inr ⟨slot, rfl⟩
  | decodeDistinct input output => exact .inr ⟨output, rfl⟩
  | snapshotDecode initial base => exact .inr ⟨base, rfl⟩
  | sequenceSnapshot initial base T => exact hbatch _
  | snapshotSmallt initial base T => exact hbatch _
  | batchedSequenceSnapshot b => exact hbatch b
  | batchedSnapshotSmallt b => exact hbatch b

section

variable {chunk : Chunk B} {c : Nat} {m m' : Memory B}

/-- The columns up to one. -/
theorem columns_upTo (n : Nat) (hn : n ≤ chunk.form.rows.columns chunk.row) :
    (chunk.columns op).take n = (List.range n).map fun t c =>
      chunk.x (chunk.rowBase op + t * op.C + c) := by
  unfold Chunk.columns
  rw [← map_take, take_range, Nat.min_eq_left hn]

/-- The columns up to one, at a channel. -/
theorem columns_take (n : Nat) (hn : n ≤ chunk.form.rows.columns chunk.row) :
    ((chunk.columns op).take n).map (· c)
      = (List.range n).map
        (Op.input { op with x := chunk.x } (chunk.rowBase op) c) := by
  rw [columns_upTo n hn, map_map]
  rfl

theorem columns_length :
    (chunk.columns op).length = chunk.form.rows.columns chunk.row := by
  unfold Chunk.columns
  rw [length_map, length_range]

theorem Chunk.Admitted.leaves (h : chunk.Admitted op) (hc : c < op.C)
    (hrun : chunk.Runs op m m') :
    Leaves { op with x := chunk.x } chunk.form.rows chunk.row c m m' := by
  refine @form_leaves B { op with x := chunk.x } _ ?_ _ _ h.2 hc _ _ hrun
  -- what is admitted depends on the channels only
  have hform := h.1
  unfold Form.Admitted at hform ⊢
  exact hform

/-- The state a chunk leaves behind. -/
theorem chunk_final (h : chunk.Admitted op) (hc : c < op.C)
    (hrun : chunk.Runs op m m') :
    op.load m' chunk.final c
      = (op.load m chunk.initial c).after ((chunk.columns op).map (· c)) := by
  have hleaves := h.leaves hc hrun
  have hall := @columns_take B op chunk c _ (le_refl _)
  rw [← @columns_length B op, take_length] at hall
  rw [hall]
  unfold Chunk.final
  rcases published_last chunk.form chunk.row with ⟨hnone, hzero⟩ | ⟨slot, hlast⟩
  · rw [hnone, columns_length, hzero]
    refine hleaves.kept _ fun row' hrow' p hp => ?_
    by_cases hrow : row' = chunk.row
    · rw [hrow, hnone] at hp
      cases hp
    · exact h.1.separated.initial row' hrow' chunk.row h.2 hrow p hp
  · rw [hlast, columns_length]
    exact hleaves.published (slot, chunk.form.rows.columns chunk.row)
      (mem_of_getLast? hlast)

end

/-- The slot where a division leaves the state. -/
def finalSlot (slot : Nat) : List (Chunk B) → Nat
  | [] => slot
  | chunk :: rest => finalSlot chunk.final rest

/-- The state behind any division of a sequence. -/
theorem chunks_final {c : Nat} (hc : c < op.C) (chunks : List (Chunk B)) :
    ∀ {slot : Nat} {m m' : Memory B}, (∀ chunk ∈ chunks, chunk.Admitted op) →
      Linked slot chunks → RunsAll op chunks m m' →
        op.load m' (finalSlot slot chunks) c
        = (op.load m slot c).after
          ((chunks.flatMap (Chunk.columns op)).map (· c)) := by
  induction chunks with
  | nil =>
    rintro slot m m' - - rfl
    rfl
  | cons chunk rest ih =>
    rintro slot m m' hall ⟨rfl, hlinked⟩ ⟨next, hrun, hrest⟩
    rw [flatMap_cons, map_append, Window.after_append,
      ← chunk_final (hall chunk (.head _)) hc hrun]
    exact ih (fun other h => hall other (.tail _ h)) hlinked hrest

theorem linked_append {before after : List (Chunk B)} :
    ∀ {slot : Nat}, Linked slot (before ++ after) →
      Linked slot before ∧ Linked (finalSlot slot before) after := by
  induction before with
  | nil => exact fun h => ⟨trivial, h⟩
  | cons chunk rest ih =>
    rintro slot ⟨rfl, hlinked⟩
    obtain ⟨hrest, hafter⟩ := ih hlinked
    exact ⟨⟨rfl, hrest⟩, hafter⟩

-- ============ token by token

/-- One step of the token-by-token form. -/
theorem decodeStep {slot c : Nat} (hc : c < op.C) (column : Nat → B)
    (m : Memory B) :
    op.load (decodeSteps op slot [column] m) slot c
        = (op.load m slot c).push (column c)
      ∧ decodeSteps op slot [column] m (.out c)
        = op.convolve c (op.load m slot c) (column c) := by
  have hleaves := (@decode_canonical B { op with x := column }
    (decodeKernel { op with x := column } slot) _ _ rfl
      fun _ _ => rfl).leaves (single_separated slot slot 1 1) Nat.one_pos hc
        ⟨_, List.Perm.refl _, rfl⟩ (m := m)
  have hinput : Op.input { op with x := column } 0 c 0 = column c := by
    unfold Op.input
    rw [Nat.zero_mul, Nat.zero_add]
  have hbase : 0 * 1 * op.C = 0 := zero_mul _
  constructor
  · have h := hleaves.published (slot, 1) (mem_singleton_self _)
    change _ = Op.windowAfter { op with x := column } _ (0 * 1 * op.C) c 1 at h
    rw [hbase, windowAfter_succ, hinput] at h
    exact h
  · have h := hleaves.out 0 Nat.one_pos
    change decodeSteps op slot [column] m (.out (0 * 1 * op.C + 0 * op.C + c))
      = op.convolve c (op.load m slot c)
        (Op.input { op with x := column } (0 * 1 * op.C) c 0) at h
    rw [hbase, Nat.zero_add, hinput] at h
    exact h

theorem decodeSteps_append (slot : Nat) (first second : List (Nat → B))
    (m : Memory B) :
    decodeSteps op slot (first ++ second) m
      = decodeSteps op slot second (decodeSteps op slot first m) :=
  foldl_append

/-- The state behind some tokens. -/
theorem decodeSteps_load {slot c : Nat} (hc : c < op.C)
    (columns : List (Nat → B)) : ∀ m : Memory B,
    op.load (decodeSteps op slot columns m) slot c
      = (op.load m slot c).after (columns.map (· c)) := by
  induction columns with
  | nil => exact fun m => rfl
  | cons column rest ih =>
    intro m
    rw [← singleton_append, decodeSteps_append, ih, (decodeStep hc column m).1]
    rfl

/-- The output of the last of them. -/
theorem decodeSteps_out {slot c : Nat} (hc : c < op.C)
    (columns : List (Nat → B)) (column : Nat → B) (m : Memory B) :
    decodeSteps op slot (columns ++ [column]) m (.out c)
      = op.convolve c ((op.load m slot c).after (columns.map (· c)))
        (column c) := by
  rw [decodeSteps_append, (decodeStep hc column _).2, decodeSteps_load hc]

-- ============ the result

/-- Where a form has snapshots, the window behind each valid column is
published. -/
theorem snapshot_published {row : Nat} (hbase : form.snapshotBase row = some base)
    (ht : t < form.rows.columns row) :
    (base + t, t + 1) ∈ form.rows.published row := by
  have hbatch : ∀ b : Batch, t < min (b.valid row) b.width →
      (b.snapshotBaseSlots row + t, t + 1) ∈ b.rows.published row :=
    fun b hb => Batch.mem_published.mpr ⟨t, hb, rfl⟩
  cases form with
  | prefill _ input output T => cases hbase
  | sequence input output T => cases hbase
  | smallt input output T => cases hbase
  | decode slot => cases hbase
  | decodeDistinct input output => cases hbase
  | snapshotDecode initial base =>
    cases hbase
    obtain rfl := Nat.lt_one_iff.mp ht
    exact mem_singleton_self _
  | sequenceSnapshot initial base T =>
    cases hbase
    exact hbatch _ ht
  | snapshotSmallt initial base T =>
    cases hbase
    exact hbatch _ ht
  | batchedSequenceSnapshot b =>
    cases hbase
    exact hbatch b ht
  | batchedSnapshotSmallt b =>
    cases hbase
    exact hbatch b ht

theorem columns_le_width (form : Form) (row : Nat) :
    form.rows.columns row ≤ form.rows.width := by
  cases form with
  | sequenceSnapshot initial base T => exact min_le_right _ _
  | snapshotSmallt initial base T => exact min_le_right _ _
  | batchedSequenceSnapshot b => exact min_le_right _ _
  | batchedSnapshotSmallt b => exact min_le_right _ _
  | _ => exact le_refl _

/-- No row publishes where a masked column would. -/
theorem masked_unpublished {row : Nat}
    (hadmitted : form.Admitted op) (hrow : row < form.rows.batch)
    (hbase : form.snapshotBase row = some base)
    (hmasked : form.rows.columns row ≤ t) (ht : t < form.rows.width) :
    ∀ row' < form.rows.batch, ∀ p ∈ form.rows.published row',
      p.1 ≠ base + t := by
  have hbatch : ∀ b : Batch, b.Reserved → row < b.batch →
      min (b.valid row) b.width ≤ t → t < b.width →
        ∀ row' < b.batch, ∀ p ∈ b.rows.published row',
          p.1 ≠ b.snapshotBaseSlots row + t := by
    intro b hreserved hrow hmasked ht row' hrow' p hp
    obtain ⟨t', ht', rfl⟩ := Batch.mem_published.mp hp
    show b.snapshotBaseSlots row' + t' ≠ b.snapshotBaseSlots row + t
    by_cases hsame : row' = row
    · subst hsame
      omega
    · have := hreserved.disjoint row' hrow' row hrow hsame
      omega
  cases form with
  | prefill _ input output T => cases hbase
  | sequence input output T => cases hbase
  | smallt input output T => cases hbase
  | decode slot => cases hbase
  | decodeDistinct input output => cases hbase
  | snapshotDecode initial base =>
    exact absurd ht (Nat.not_lt.mpr hmasked)
  | sequenceSnapshot initial base T =>
    cases hbase
    exact hbatch _ (oneRow_reserved _ _ _) hrow hmasked ht
  | snapshotSmallt initial base T =>
    cases hbase
    exact hbatch _ (oneRow_reserved _ _ _) hrow hmasked ht
  | batchedSequenceSnapshot b =>
    cases hbase
    exact hbatch b hadmitted.2 hrow hmasked ht
  | batchedSnapshotSmallt b =>
    cases hbase
    exact hbatch b hadmitted.2 hrow hmasked ht

/-- In any division of a sequence into chunks, each with any form that
admits it and with its programs in any order, a chunk does at a channel
what the token-by-token form does from the same window: its outputs, the
state it leaves and its snapshots are those behind as many tokens. The
outputs of masked columns are zero, and their snapshot slots are not
written. -/
theorem chunk_token_by_token (op : Op B) {c : Nat} (hc : c < op.C)
    (before : List (Chunk B)) (chunk : Chunk B) (slot : Nat)
    (hadmitted : ∀ other ∈ before ++ [chunk], other.Admitted op)
    (hlinked : Linked slot (before ++ [chunk]))
    {m m₁ m₂ : Memory B} (hbefore : RunsAll op before m m₁)
    (hchunk : chunk.Runs op m₁ m₂) (d : Memory B) (slot' : Nat)
    (hsame : op.load d slot' c = op.load m slot c) :
    let tokens := fun n => decodeSteps op slot'
      (before.flatMap (Chunk.columns op) ++ (chunk.columns op).take n) d
    let columns := (chunk.columns op).length
    (∀ t < columns, m₂ (.out (chunk.rowBase op + t * op.C + c))
        = tokens (t + 1) (.out c))
      ∧ op.load m₂ chunk.final c = op.load (tokens columns) slot' c
      ∧ (∀ base, chunk.form.snapshotBase chunk.row = some base →
          ∀ t < columns,
            op.load m₂ (base + t) c = op.load (tokens (t + 1)) slot' c)
      ∧ (∀ t, columns ≤ t → t < chunk.form.rows.width →
          m₂ (.out (chunk.rowBase op + t * op.C + c)) = op.zero)
      ∧ ∀ base, chunk.form.snapshotBase chunk.row = some base →
          ∀ t, columns ≤ t → t < chunk.form.rows.width →
            op.load m₂ (base + t) c = op.load m₁ (base + t) c := by
  intro tokens columns
  have hlast := hadmitted chunk
    (mem_append_right _ (mem_singleton_self _))
  obtain ⟨hfirst, hinitial, -⟩ := linked_append hlinked
  -- the chunk begins where the token-by-token form is
  have hwindow : op.load m₁ chunk.initial c
      = (op.load d slot' c).after
        ((before.flatMap (Chunk.columns op)).map (· c)) := by
    rw [hinitial, hsame]
    exact chunks_final hc before
      (fun other h => hadmitted other (mem_append_left _ h)) hfirst
      hbefore
  have htokens : ∀ n ≤ columns, op.load (tokens n) slot' c
      = Op.windowAfter { op with x := chunk.x } (op.load m₁ chunk.initial c)
        (chunk.rowBase op) c n := by
    intro n hn
    show op.load (decodeSteps op slot' _ d) slot' c = _
    rw [decodeSteps_load hc, map_append, Window.after_append, ← hwindow,
      columns_take n (@columns_length B op _ ▸ hn)]
    rfl
  have hcolumns : columns = chunk.form.rows.columns chunk.row :=
    columns_length
  have hleaves := hlast.leaves hc hchunk
  refine ⟨?_, ?_, ?_, ?_, ?_⟩
  · intro t ht
    have hwidth : t < chunk.form.rows.width :=
      Nat.lt_of_lt_of_le (hcolumns ▸ ht) (columns_le_width _ _)
    have hout := hleaves.out t hwidth
    rw [if_pos (hcolumns ▸ ht)] at hout
    refine hout.trans ?_
    have htake : (chunk.columns op).take (t + 1)
        = (chunk.columns op).take t ++ [fun c =>
          chunk.x (chunk.rowBase op + t * op.C + c)] := by
      rw [columns_upTo (t + 1) (by omega), columns_upTo t (by omega),
        range_succ, map_append]
      rfl
    show _ = decodeSteps op slot' _ d (.out c)
    rw [htake, ← append_assoc, decodeSteps_out hc, map_append,
      Window.after_append, ← hwindow,
      columns_take t (by omega)]
    rfl
  · rw [htokens _ (Nat.le_refl _), chunk_final hlast hc hchunk]
    have hall := @columns_take B op chunk c _ (Nat.le_refl _)
    rw [← @columns_length B op, take_length] at hall
    rw [hall]
    rfl
  · intro base hbase t ht
    rw [htokens _ ht]
    exact hleaves.published _ (snapshot_published hbase (hcolumns ▸ ht))
  · intro t hmasked ht
    refine (hleaves.out t ht).trans ?_
    rw [if_neg (by omega)]
  · intro base hbase t hmasked ht
    exact hleaves.kept _ (masked_unpublished hlast.1 hlast.2 hbase
      (hcolumns ▸ hmasked) ht)

/-- A chunk can always be launched. -/
theorem chunk_runs_exists (op : Op B) (chunk : Chunk B) (m : Memory B) :
    ∃ m', chunk.Runs op m m' := by
  have hkernels : ∀ (kernels : List (Kernel B)) (m : Memory B),
      ∃ m', CausalConv.Runs kernels m m' := by
    intro kernels
    induction kernels with
    | nil => exact fun m => ⟨m, rfl⟩
    | cons kernel rest ih =>
      intro m
      obtain ⟨m', hrest⟩ := ih
        (run (β := fun _ => B) kernel.body kernel.programs m)
      exact ⟨m', _, ⟨_, List.Perm.refl _, rfl⟩, hrest⟩
  exact hkernels _ m

theorem runsAll_exists (op : Op B) (chunks : List (Chunk B)) :
    ∀ m : Memory B, ∃ m', RunsAll op chunks m m' := by
  induction chunks with
  | nil => exact fun m => ⟨m, rfl⟩
  | cons chunk rest ih =>
    intro m
    obtain ⟨next, hrun⟩ := chunk_runs_exists op chunk m
    obtain ⟨m', hrest⟩ := ih next
    exact ⟨m', next, hrun, hrest⟩

/-- Two channels over sums, and a chunk of three columns in place. -/
def sumOp : Op Nat where
  silu := fun w0 w1 w2 w3 x0 x1 x2 x3 =>
    w0 * x0 + w1 * x1 + w2 * x2 + w3 * x3
  zero := 0
  C := 2
  weight := fun i => i + 1
  x := fun _ => 0

def inPlaceChunk : Chunk Nat := ⟨.smallt 0 0 3, fun i => i + 5, 0⟩

/-- Two rows of three columns with snapshots. The first has two valid ones
and leaves the initial slot of the second behind them. -/
def twoRows : Batch where
  batch := 2
  width := 3
  validColumns := some fun row => 2 + row
  initialStateSlots := fun row => 2 * row
  snapshotBaseSlots := fun row => 3 * row

def snapshotChunk : Chunk Nat :=
  ⟨.batchedSnapshotSmallt twoRows, fun i => i + 20, 0⟩

theorem chunk_token_by_token_snapshots :
    ∃ m₁ m₂ : Memory Nat, RunsAll sumOp [inPlaceChunk] (fun _ => 1) m₁
      ∧ snapshotChunk.Runs sumOp m₁ m₂
      ∧ ∀ base, snapshotChunk.form.snapshotBase snapshotChunk.row = some base →
          ∀ t < (snapshotChunk.columns sumOp).length,
            sumOp.load m₂ (base + t) 1
              = sumOp.load (decodeSteps sumOp 7
                ([inPlaceChunk].flatMap (Chunk.columns sumOp)
                  ++ (snapshotChunk.columns sumOp).take (t + 1))
                fun _ => 1) 7 1 := by
  obtain ⟨m₁, hfirst⟩ := runsAll_exists sumOp [inPlaceChunk] fun _ => 1
  obtain ⟨m₂, hsecond⟩ := chunk_runs_exists sumOp snapshotChunk m₁
  refine ⟨m₁, m₂, hfirst, hsecond, ?_⟩
  refine (chunk_token_by_token sumOp (by decide : 1 < 2) [inPlaceChunk]
    snapshotChunk 0 ?_ ⟨rfl, rfl, trivial⟩ hfirst hsecond (fun _ => 1) 7
    rfl).2.2.1
  intro chunk hchunk
  rcases mem_cons.mp hchunk with rfl | hchunk
  · exact ⟨show 0 < 3 by decide, Nat.one_pos⟩
  · rw [mem_singleton.mp hchunk]
    exact ⟨⟨show 0 < 3 by decide, by decide, by decide⟩, show 0 < 2 by decide⟩

end Ginfer.Ops.CausalConv
