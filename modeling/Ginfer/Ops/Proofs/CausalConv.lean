/-
What a launch of the convolution leaves behind.

The window after some columns holds the last three of the initial window
and the columns (`after_taps`), which is where every kernel looks its taps
up. The stores of each kernel but the output kernels of the prefill are
those of `canonical`, in some order: for a channel of a row the outputs of
its columns, and the windows it publishes. A channel of a row has its own
elements (`canonical_apart`), so they can be read program by program.
-/
import Ginfer.Ops.CausalConv

namespace Ginfer.Ops.CausalConv

open Ginfer.Lib List
open Ginfer.Lib.Launch

variable {B : Type}

-- ============ the windows

/-- The window behind one more column. -/
def Window.push (w : Window B) (x : B) : Window B := ⟨w.s1, w.s2, x⟩

/-- The window behind some columns. -/
def Window.after (w : Window B) (xs : List B) : Window B :=
  xs.foldl Window.push w

/-- The columns of the window, and those after it. -/
def Window.tap (w : Window B) (f : Nat → B) (i : Nat) : B :=
  if i = 0 then w.s0
  else if i = 1 then w.s1
  else if i = 2 then w.s2
  else f (i - 3)

theorem Window.after_append (w : Window B) (xs ys : List B) :
    w.after (xs ++ ys) = (w.after xs).after ys :=
  foldl_append

theorem after_taps (w : Window B) (f : Nat → B) (n : Nat) :
    w.after ((range n).map f)
      = ⟨w.tap f n, w.tap f (n + 1), w.tap f (n + 2)⟩ := by
  induction n with
  | zero => rfl
  | succ n ih =>
    rw [range_succ, map_append, Window.after_append, ih]
    rfl

section

variable (op : Op B)

/-- The output of a column behind a window. -/
def Op.convolve (c : Nat) (w : Window B) (x : B) : B :=
  op.taps c w.s0 w.s1 w.s2 x

/-- A column of a channel, in the columns of a row. -/
def Op.input (rowBase c t : Nat) : B := op.x (rowBase + t * op.C + c)

/-- The window of a channel behind some columns of a row. -/
def Op.windowAfter (w : Window B) (rowBase c n : Nat) : Window B :=
  w.after ((range n).map (op.input rowBase c))

/-- An output, from the four taps it is computed from. -/
theorem convolve_windowAfter (w : Window B) (rowBase c t : Nat) :
    op.convolve c (op.windowAfter w rowBase c t) (op.input rowBase c t)
      = op.taps c (w.tap (op.input rowBase c) t)
        (w.tap (op.input rowBase c) (t + 1))
        (w.tap (op.input rowBase c) (t + 2)) (op.input rowBase c t) := by
  unfold Op.windowAfter
  rw [after_taps]
  rfl

-- ============ the rows

/-- What a launch does with its rows: where the window of a row is, how
many of its columns count, and the slots it publishes a window in, with the
columns behind it. -/
structure Rows where
  batch : Nat
  width : Nat
  initial : Nat → Nat
  columns : Nat → Nat
  published : Nat → List (Nat × Nat)

/-- The stores of a channel of a row. -/
def canonical (rows : Rows) (i : Nat × Nat) (m : Memory B) : Stores B :=
  if op.C ≤ i.2 then []
  else
    let w := op.load m (rows.initial i.1) i.2
    let rowBase := i.1 * rows.width * op.C
    (range rows.width).map (fun t =>
      ⟨.out (rowBase + t * op.C + i.2),
        if t < rows.columns i.1 then
          op.convolve i.2 (op.windowAfter w rowBase i.2 t)
            (op.input rowBase i.2 t)
        else op.zero⟩)
    ++ (rows.published i.1).flatMap fun p =>
      op.store p.1 i.2 (op.windowAfter w rowBase i.2 p.2)

/-- No row publishes where another does, or where the window of another
is; nor two windows in one slot. -/
structure Rows.Separated (rows : Rows) : Prop where
  own : ∀ row < rows.batch, ∀ p ∈ rows.published row,
    ∀ q ∈ rows.published row, p.1 = q.1 → p.2 = q.2
  initial : ∀ row < rows.batch, ∀ row' < rows.batch, row ≠ row' →
    ∀ p ∈ rows.published row, p.1 ≠ rows.initial row'
  published : ∀ row < rows.batch, ∀ row' < rows.batch, row ≠ row' →
    ∀ p ∈ rows.published row, ∀ q ∈ rows.published row', p.1 ≠ q.1

-- ============ the elements

/-- An element of the pool. -/
def Op.stateIndex (slot s c : Nat) : Nat := slot * op.slotStride + s * op.C + c

variable {op} {slot c : Nat}

theorem stateIndex_inj {slot' s s' c' : Nat} (hs : s < 3)
    (hs' : s' < 3) (hc : c < op.C) (hc' : c' < op.C)
    (h : op.stateIndex slot s c = op.stateIndex slot' s' c') :
    slot = slot' ∧ s = s' ∧ c = c' := by
  have hflat : ∀ slot s c : Nat,
      op.stateIndex slot s c = (slot * 3 + s) * op.C + c := by
    intro slot s c
    unfold Op.stateIndex Op.slotStride
    rw [add_mul, mul_assoc slot 3, mul_comm op.C 3]
  rw [hflat, hflat] at h
  obtain ⟨hrow, hcolumn⟩ := digits_inj hc hc' h
  exact ⟨by omega, by omega, hcolumn⟩

variable {row : Nat}

theorem outIndex_inj {width row' t t' c' : Nat} (ht : t < width)
    (ht' : t' < width) (hc : c < op.C) (hc' : c' < op.C)
    (h : row * width * op.C + t * op.C + c
      = row' * width * op.C + t' * op.C + c') :
    row = row' ∧ t = t' ∧ c = c' := by
  rw [← add_mul, ← add_mul] at h
  obtain ⟨hcell, hchannel⟩ := digits_inj hc hc' h
  obtain ⟨hrow, hcolumn⟩ := digits_inj ht ht' hcell
  exact ⟨hrow, hcolumn, hchannel⟩

variable {write : (_ : Cell) × B}

/-- The elements of a window. -/
theorem mem_store {w : Window B} :
    write ∈ op.store slot c w ↔
      ∃ s < 3, write = ⟨.state (op.stateIndex slot s c), w.tap (fun _ => w.s0) s⟩ := by
  unfold Op.store
  have h0 : slot * op.slotStride + c = op.stateIndex slot 0 c := by
    unfold Op.stateIndex
    omega
  have h1 : slot * op.slotStride + op.C + c = op.stateIndex slot 1 c := by
    unfold Op.stateIndex
    omega
  rw [h0, h1]
  constructor
  · intro h
    rcases mem_cons.mp h with rfl | h
    · exact ⟨0, by decide, rfl⟩
    · rcases mem_cons.mp h with rfl | h
      · exact ⟨1, by decide, rfl⟩
      · exact ⟨2, by decide, mem_singleton.mp h⟩
  · rintro ⟨s, hs, rfl⟩
    match s, hs with
    | 0, _ => exact .head _
    | 1, _ => exact .tail _ (.head _)
    | 2, _ => exact .tail _ (.tail _ mem_cons_self)

variable {m : Memory B}

theorem load_congr {m' : Memory B}
    (h : ∀ s < 3, m (.state (op.stateIndex slot s c))
      = m' (.state (op.stateIndex slot s c))) :
    op.load m slot c = op.load m' slot c := by
  have h0 := h 0 (by decide)
  have h1 := h 1 (by decide)
  have h2 := h 2 (by decide)
  unfold Op.stateIndex at h0 h1 h2
  rw [zero_mul, add_zero] at h0
  rw [one_mul] at h1
  exact Window.ext h0 h1 h2

/-- A window that is found where it was stored. -/
theorem load_eq {w : Window B}
    (h : ∀ write ∈ op.store slot c w, m write.1 = write.2) :
    op.load m slot c = w :=
  Window.ext (h _ (.head _)) (h _ (.tail _ (.head _)))
    (h _ (.tail _ (.tail _ (.head _))))

-- ============ the stores

variable {rows : Rows}

/-- The stores of a channel of a row, one kind after the other. -/
theorem mem_canonical (hc : c < op.C) :
    write ∈ canonical op rows (row, c) m ↔
      (∃ t < rows.width, write = ⟨.out (row * rows.width * op.C + t * op.C + c),
        if t < rows.columns row then
          op.convolve c (op.windowAfter (op.load m (rows.initial row) c)
            (row * rows.width * op.C) c t)
            (op.input (row * rows.width * op.C) c t)
        else op.zero⟩)
      ∨ ∃ p ∈ rows.published row, write ∈ op.store p.1 c (op.windowAfter
        (op.load m (rows.initial row) c) (row * rows.width * op.C) c p.2) := by
  unfold canonical
  rw [if_neg (by omega), mem_append, mem_map, mem_flatMap]
  refine or_congr ⟨?_, ?_⟩ Iff.rfl
  · rintro ⟨t, ht, rfl⟩
    exact ⟨t, mem_range.mp ht, rfl⟩
  · rintro ⟨t, ht, rfl⟩
    exact ⟨t, mem_range.mpr ht, rfl⟩

/-- What a channel of a row reads. -/
def Reads (op : Op B) (rows : Rows) (i : Nat × Nat) (cell : Cell) : Prop :=
  i.2 < op.C ∧ ∃ s < 3, cell = .state (op.stateIndex (rows.initial i.1) s i.2)

/-- What it writes. -/
def Stores.Of (op : Op B) (rows : Rows) (i : Nat × Nat) (cell : Cell) :
    Prop :=
  i.2 < op.C ∧ ((∃ t < rows.width,
      cell = .out (i.1 * rows.width * op.C + t * op.C + i.2))
    ∨ ∃ p ∈ rows.published i.1, ∃ s < 3, cell = .state (op.stateIndex p.1 s i.2))

theorem canonical_inside {i : Nat × Nat} (h : write ∈ canonical op rows i m) :
    Stores.Of op rows i write.1 := by
  have hc : i.2 < op.C := by
    by_contra hout
    unfold canonical at h
    rw [if_pos (Nat.not_lt.mp hout)] at h
    cases h
  rcases (mem_canonical hc).mp h with ⟨t, ht, rfl⟩ | ⟨p, hp, hstore⟩
  · exact ⟨hc, .inl ⟨t, ht, rfl⟩⟩
  · obtain ⟨s, hs, rfl⟩ := mem_store.mp hstore
    exact ⟨hc, .inr ⟨p, hp, s, hs, rfl⟩⟩

/-- A channel of a row has its own elements. -/
theorem canonical_apart (hrows : rows.Separated) :
    Apart (β := fun _ => B) (canonical op rows) (fun i => i.1 < rows.batch)
      (Reads op rows) (Stores.Of op rows) where
  sees := by
    intro i m m' _ hsame
    unfold canonical
    by_cases hc : op.C ≤ i.2
    · rw [if_pos hc, if_pos hc]
    · rw [if_neg hc, if_neg hc]
      have hload : op.load m (rows.initial i.1) i.2
          = op.load m' (rows.initial i.1) i.2 :=
        load_congr fun s hs => hsame _ ⟨by omega, s, hs, rfl⟩
      rw [hload]
  inside := fun _ hmem => canonical_inside hmem
  unread := by
    rintro ⟨row, c⟩ ⟨row', c'⟩ a hi hj hne ⟨hc', hwrites⟩ ⟨hc, s, hs, rfl⟩
    rcases hwrites with ⟨t, -, heq⟩ | ⟨p, hp, s', hs', heq⟩
    · cases heq
    · obtain ⟨hslot, -, rfl⟩ := stateIndex_inj hs hs' hc hc' (Cell.state.inj heq)
      exact hrows.initial row' hj row hi (fun h => hne (h ▸ rfl)) p hp hslot.symm
  alone := by
    rintro ⟨row, c⟩ ⟨row', c'⟩ a hi hj hne ⟨hc', hwrites⟩ ⟨hc, hown⟩
    rcases hown with ⟨t, ht, rfl⟩ | ⟨p, hp, s, hs, rfl⟩
    · rcases hwrites with ⟨t', ht', heq⟩ | ⟨q, -, s', -, heq⟩
      · obtain ⟨rfl, -, rfl⟩ := outIndex_inj ht ht' hc hc' (Cell.out.inj heq)
        exact hne rfl
      · cases heq
    · rcases hwrites with ⟨t', -, heq⟩ | ⟨q, hq, s', hs', heq⟩
      · cases heq
      · obtain ⟨hslot, -, rfl⟩ := stateIndex_inj hs hs' hc hc'
          (Cell.state.inj heq)
        exact hrows.published row hi row' hj (fun h => hne (h ▸ rfl)) p hp q
          hq hslot

/-- A channel of a row writes an element one value. -/
theorem canonical_one (hrows : rows.Separated) {i : Nat × Nat}
    (hrow : i.1 < rows.batch) :
    ∀ write ∈ canonical op rows i m, ∀ other ∈ canonical op rows i m,
      write.1 = other.1 → write = other := by
  obtain ⟨row, c⟩ := i
  intro write hwrite other hother heq
  have hc := (canonical_inside hwrite).1
  rcases (mem_canonical hc).mp hwrite with ⟨t, ht, rfl⟩ | ⟨p, hp, hstore⟩
  · rcases (mem_canonical hc).mp hother with ⟨t', ht', rfl⟩ | ⟨q, -, hstore'⟩
    · obtain ⟨-, rfl, -⟩ := outIndex_inj ht ht' hc hc (Cell.out.inj heq)
      rfl
    · obtain ⟨s', -, rfl⟩ := mem_store.mp hstore'
      cases heq
  · obtain ⟨s, hs, rfl⟩ := mem_store.mp hstore
    rcases (mem_canonical hc).mp hother with ⟨t', -, rfl⟩ | ⟨q, hq, hstore'⟩
    · cases heq
    · obtain ⟨s', hs', rfl⟩ := mem_store.mp hstore'
      obtain ⟨hslot, rfl, -⟩ := stateIndex_inj hs hs' hc hc (Cell.state.inj heq)
      have hcolumns := hrows.own row hrow p hp q hq hslot
      rw [hcolumns, hslot]

-- ============ the launch

/-- What a launch leaves of a channel of a row. -/
structure Leaves (op : Op B) (rows : Rows) (row c : Nat)
    (m m' : Memory B) : Prop where
  out : ∀ t < rows.width,
    m' (.out (row * rows.width * op.C + t * op.C + c))
      = if t < rows.columns row then
          op.convolve c (op.windowAfter (op.load m (rows.initial row) c)
            (row * rows.width * op.C) c t)
            (op.input (row * rows.width * op.C) c t)
        else op.zero
  published : ∀ p ∈ rows.published row,
    op.load m' p.1 c = op.windowAfter (op.load m (rows.initial row) c)
      (row * rows.width * op.C) c p.2
  kept : ∀ slot, (∀ row' < rows.batch, ∀ p ∈ rows.published row',
    p.1 ≠ slot) → op.load m' slot c = op.load m slot c
  silent : rows.width = 0 → ∀ a, m' (.out a) = m (.out a)

/-- The programs of a launch are the channels of its rows, and perhaps
others. -/
structure Covers (op : Op B) (rows : Rows) (order : List (Nat × Nat)) :
    Prop where
  nodup : order.Nodup
  batch : ∀ i ∈ order, i.1 < rows.batch
  channels : ∀ row < rows.batch, ∀ c < op.C, (row, c) ∈ order

theorem canonical_leaves (hrows : rows.Separated)
    {order : List (Nat × Nat)} (horder : Covers op rows order)
    (hrow : row < rows.batch) (hc : c < op.C) (m : Memory B) :
    Leaves op rows row c m
      (run (β := fun _ => B) (canonical op rows) order m) := by
  have hwritten : ∀ write ∈ canonical op rows (row, c) m,
      run (β := fun _ => B) (canonical op rows) order m write.1
        = write.2 := by
    intro write hwrite
    rw [run_of_writes (canonical_apart hrows) horder.batch horder.nodup
      (horder.channels row hrow c hc) (canonical_inside hwrite)]
    exact commit_of_mem hwrite fun other hother heq =>
      canonical_one hrows hrow other hother write hwrite heq
  constructor
  · intro t ht
    exact hwritten _ ((mem_canonical hc).mpr (.inl ⟨t, ht, rfl⟩))
  · intro p hp
    exact load_eq fun write hwrite =>
      hwritten write ((mem_canonical hc).mpr (.inr ⟨p, hp, hwrite⟩))
  · intro slot hslot
    refine load_congr fun s hs => ?_
    refine run_of_not_writes (canonical_apart hrows) horder.batch ?_ m
    rintro ⟨row', c'⟩ hi ⟨hc', hwrites⟩
    rcases hwrites with ⟨t, -, heq⟩ | ⟨p, hp, s', hs', heq⟩
    · cases heq
    · obtain ⟨rfl, -, -⟩ := stateIndex_inj hs hs' hc hc' (Cell.state.inj heq)
      exact hslot row' (horder.batch _ hi) p hp rfl
  · intro hwidth a
    refine run_of_not_writes (canonical_apart hrows) horder.batch ?_ m
    rintro i hi ⟨hc', ⟨t, ht, -⟩ | ⟨p, -, s, -, heq⟩⟩
    · omega
    · cases heq

/-- A kernel whose programs store what is canonical, in some order. -/
structure Kernel.Canonical (kernel : Kernel B) (op : Op B) (rows : Rows) :
    Prop where
  covers : Covers op rows kernel.programs
  stores : ∀ row c, row < rows.batch → ∀ m write, (row, c) ∈ kernel.programs →
    (write ∈ kernel.body (row, c) m ↔ write ∈ canonical op rows (row, c) m)

theorem Kernel.Canonical.leaves {kernel : Kernel B}
    (h : kernel.Canonical op rows) (hrows : rows.Separated)
    (hrow : row < rows.batch) (hc : c < op.C) {m' : Memory B}
    (hrun : kernel.Runs m m') : Leaves op rows row c m m' := by
  obtain ⟨order, hperm, rfl⟩ := hrun
  have hcovers : Covers op rows order :=
    ⟨hperm.nodup_iff.mpr h.covers.nodup,
      fun i hi => h.covers.batch i (hperm.mem_iff.mp hi),
      fun row hrow c hc => hperm.mem_iff.mpr (h.covers.channels row hrow c hc)⟩
  have hsame : run (β := fun _ => B) kernel.body order m
      = run (β := fun _ => B) (canonical op rows) order m := by
    refine run_congr (fun i hi m => ?_) m
    have hrow := hcovers.batch i hi
    exact commit_ext (h.stores i.1 i.2 hrow m · (hperm.mem_iff.mp hi))
      (canonical_one hrows hrow)
  rw [hsame]
  exact canonical_leaves hrows hcovers hrow hc m

end

end Ginfer.Ops.CausalConv
