/-
Greedy speculative decoding is lossless.

The rows of a launch do not meet: a block reads and writes the cells of
its own row only (`rowView`, `acceptRow_view_ne`), so a launch does to a
row what the row's block does, whatever the order of the blocks
(`foldl_view`). What a block does is then a statement about one row: the
accepted count is the length of the matching prefix
(`matchDrafts_spec`), both ops agree on it (`dflash2AcceptGreedy_eq`),
and the tokens licensed under a verified set of columns are the target's
own next tokens (`licensed_autoregress`).

Over a run, the output of a row is the autoregressive sequence
(`greedy_lossless`).
-/
import Ginfer.Lib.Runs
import Ginfer.Ops.SpeculativeRound
import Mathlib.Tactic.Ring
import Mathlib.Algebra.Order.Ring.Rat

namespace Ginfer.Ops

open Ginfer.Lib List

variable {K : Type}

-- ============ buffers

theorem writeRange_apply (base n : Nat) (values buffer : Nat → Int) (i : Nat) :
    writeRange base n values buffer i =
      if base ≤ i ∧ i < base + n then values (i - base) else buffer i := by
  unfold writeRange
  induction n with
  | zero => simp
  | succ n ih =>
    rw [range_succ, foldl_append]
    simp only [foldl_cons, foldl_nil, Function.update_apply, ih]
    by_cases hi : i = base + n
    · subst hi
      simp
    · have hiff : (base ≤ i ∧ i < base + n) ↔
          (base ≤ i ∧ i < base + (n + 1)) := by omega
      simp only [hi, if_false, hiff]

variable {row other : Nat}

/-- Cells of different rows are different. -/
theorem cell_ne {k i j : Nat} (hne : other ≠ row) (hi : i ≤ k)
    (hj : j ≤ k) : other * (k + 1) + j ≠ row * (k + 1) + i := by
  intro heq
  have hrow : (row * (k + 1) + i) / (k + 1) = row := by
    rw [mul_comm, Nat.mul_add_div (Nat.succ_pos k),
      Nat.div_eq_of_lt (Nat.lt_succ_of_le hi), add_zero]
  have hother : (other * (k + 1) + j) / (k + 1) = other := by
    rw [mul_comm, Nat.mul_add_div (Nat.succ_pos k),
      Nat.div_eq_of_lt (Nat.lt_succ_of_le hj), add_zero]
  rw [heq, hrow] at hother
  exact hne hother.symm

/-- A write into another row's cells is not seen. -/
theorem writeRange_other {k i n : Nat} (values buffer : Nat → Int)
    (hne : other ≠ row) (hi : i ≤ k) (hn : n ≤ k + 1) :
    writeRange (other * (k + 1)) n values buffer (row * (k + 1) + i) =
      buffer (row * (k + 1) + i) := by
  rw [writeRange_apply, if_neg]
  rintro ⟨hle, hlt⟩
  obtain ⟨j, hj⟩ := Nat.exists_eq_add_of_le hle
  exact cell_ne hne hi (by omega : j ≤ k) hj.symm

/-- A write into the row's own cells. -/
theorem writeRange_own {base n i : Nat} (values buffer : Nat → Int) :
    writeRange base n values buffer (base + i) =
      if i < n then values i else buffer (base + i) := by
  rw [writeRange_apply]
  by_cases hi : i < n
  · rw [if_pos ⟨Nat.le_add_right _ _, by omega⟩, if_pos hi]
    congr 1
    omega
  · rw [if_neg (by omega), if_neg hi]

theorem clampExtent_le (k : Nat) (extent : Int) :
    clampExtent k extent ≤ k := by
  unfold clampExtent
  split
  · exact Nat.zero_le k
  · split
    · exact le_refl k
    · omega

-- ============ the loops of a row

/-- The greedy loop stops at the first column that disagrees with its
draft. -/
theorem matchDrafts_spec (targets drafts : Nat → Token) :
    ∀ left c, c ≤ matchDrafts targets drafts left c ∧
      matchDrafts targets drafts left c ≤ c + left ∧
      (∀ i, c ≤ i → i < matchDrafts targets drafts left c →
        targets i = drafts i) := by
  intro left
  induction left with
  | zero =>
    intro c
    exact ⟨le_refl c, le_refl c,
      fun i hle hlt => absurd hlt (Nat.not_lt.mpr hle)⟩
  | succ left ih =>
    intro c
    unfold matchDrafts
    split
    · next heq =>
      obtain ⟨hge, hle, hall⟩ := ih (c + 1)
      refine ⟨by omega, by omega, fun i hci hlt => ?_⟩
      rcases Nat.eq_or_lt_of_le hci with rfl | hci
      · exact heq
      · exact hall i hci hlt
    · exact ⟨le_refl c, by omega,
        fun i hle hlt => absurd hlt (Nat.not_lt.mpr hle)⟩

theorem acceptColumns_le (test : Nat → Bool) (correction bonus : Nat → Token) :
    ∀ left c,
      (acceptColumns test correction bonus left c).accepted ≤ c + left := by
  intro left
  induction left with
  | zero => intro c; exact le_refl c
  | succ left ih =>
    intro c
    unfold acceptColumns
    split
    · have := ih (c + 1)
      omega
    · show c ≤ c + (left + 1)
      omega

/-- The column loop with the greedy test is the matching loop. -/
theorem acceptColumns_greedy (targets drafts : Nat → Token) :
    ∀ left c,
      acceptColumns (fun i => targets i = drafts i) targets targets left c =
        ⟨matchDrafts targets drafts left c,
        targets (matchDrafts targets drafts left c)⟩ := by
  intro left
  induction left with
  | zero => intro c; rfl
  | succ left ih =>
    intro c
    unfold acceptColumns matchDrafts
    by_cases heq : targets c = drafts c
    · rw [if_pos (decide_eq_true heq), if_pos heq]
      exact ih (c + 1)
    · rw [if_neg (by simp [heq]), if_neg heq]

/-- Both ops make the same greedy decision. -/
theorem dflash2AcceptGreedy_eq (row : RowInputs K) :
    dflash2AcceptGreedy row = speculativeAcceptGreedy row :=
  acceptColumns_greedy row.targets row.drafts row.extent 0

-- ============ a row's view

/-- The cells of one row. -/
structure RowView where
  length : Int
  anchor : Token
  count : Int
  accepted : Int
  counts : Token → Nat
  licensed : Nat → Token
  verifyIds : Nat → Token
  positions : Nat → Int

/-- What a row's block can see of the device. Past the row's last
column the view is blank. -/
def rowView (k row : Nat) (d : Device) : RowView where
  length := d.lengths row
  anchor := d.anchors row
  count := d.licensedCounts row
  accepted := d.accepted row
  counts := d.tokenCounts row
  licensed i := if i ≤ k then d.licensedTokens (row * (k + 1) + i) else 0
  verifyIds i := if i ≤ k then d.verifyIds (row * (k + 1) + i) else 0
  positions i := if i ≤ k then d.positions (row * (k + 1) + i) else 0

/-- A launch does to a row what the row's own block does: the other
blocks leave its view alone, and its own block acts on the view. -/
theorem foldl_view {D V : Type} {view : D → V} {step : D → Nat → D}
    (hframe : ∀ d other, other ≠ row → view (step d other) = view d)
    (hlocal : ∀ d d', view d = view d' → view (step d row) = view (step d' row)) :
    ∀ (order : List Nat) (d : D), order.Nodup → row ∈ order →
      view (order.foldl step d) = view (step d row) := by
  have hskip : ∀ (order : List Nat) (d : D), row ∉ order →
      view (order.foldl step d) = view d := by
    intro order
    induction order with
    | nil => intro d _; rfl
    | cons a rest ih =>
      intro d hnot
      rw [foldl_cons, ih _ (not_mem_of_not_mem_cons hnot)]
      exact hframe d a (fun h => hnot (h ▸ (.head _)))
  intro order
  induction order with
  | nil => intro d _ hmem; exact absurd hmem not_mem_nil
  | cons a rest ih =>
    intro d hnodup hmem
    obtain ⟨hnot, hrest⟩ := nodup_cons.mp hnodup
    rw [foldl_cons]
    rcases mem_cons.mp hmem with rfl | hmem
    · exact hskip rest _ hnot
    · rw [ih _ hrest hmem]
      exact hlocal _ _ (hframe d a (fun h => hnot (h ▸ hmem)))

variable {batch : Nat}

/-- The rows of a launch, for a row of the batch. -/
theorem foldl_launch {D V : Type} {view : D → V} {step : D → Nat → D}
    (hframe : ∀ d other, other ≠ row → view (step d other) = view d)
    (hlocal : ∀ d d', view d = view d' → view (step d row) = view (step d' row))
    {order : List Nat} (hperm : order.Perm (List.range batch))
    (hrow : row < batch) (d : D) :
    view (order.foldl step d) = view (step d row) :=
  foldl_view hframe hlocal order d (hperm.nodup_iff.mpr nodup_range)
    (hperm.mem_iff.mpr (mem_range.mpr hrow))

-- ============ the verify inputs

variable [Field K] {k : Nat} {r : Round K}

theorem prepareVerifyRow_view (d : Device) (row : Nat) :
    rowView k row (prepareVerifyRow k r d row) =
      { rowView k row d with
        verifyIds := fun j =>
          if j ≤ k then
            if j = 0 then d.anchors row
            else if j ≤ clampExtent k (r.currentExtents row) then
              r.drafts (row * k + j - 1)
            else d.anchors row
          else 0
        positions := fun j =>
          if j ≤ k then
            d.lengths row +
              ((if j ≤ clampExtent k (r.currentExtents row) then j
                else clampExtent k (r.currentExtents row) : Nat) : Int)
          else 0 } := by
  simp only [rowView, prepareVerifyRow, writeRange_own, Nat.lt_succ_iff,
    RowView.mk.injEq, true_and]
  constructor <;> funext j <;> split <;> rfl

theorem prepareVerifyRow_view_ne (d : Device) (hne : other ≠ row) :
    rowView k row (prepareVerifyRow k r d other) = rowView k row d := by
  simp only [rowView, prepareVerifyRow, RowView.mk.injEq, true_and]
  constructor <;> funext j <;> split
  · next hj => exact writeRange_other _ _ hne hj (le_refl _)
  · rfl
  · next hj => exact writeRange_other _ _ hne hj (le_refl _)
  · rfl

/-- The verify inputs of a row after the launch. -/
theorem prepareVerifyInputs_view
    (hperm : r.order.Perm (List.range batch)) (hrow : row < batch)
    (d : Device) :
    rowView k row (prepareVerifyInputs k r d) =
      rowView k row (prepareVerifyRow k r d row) := by
  refine foldl_launch (fun d other hne => prepareVerifyRow_view_ne d hne)
    (fun d d' hview => ?_) hperm hrow d
  have hlength := congrArg RowView.length hview
  have hanchor := congrArg RowView.anchor hview
  rw [prepareVerifyRow_view, prepareVerifyRow_view, hview]
  simp only [rowView] at hlength hanchor
  rw [hlength, hanchor]

-- ============ the acceptance

variable [LinearOrder K]
variable {truncate : SamplingConfig K → (Token → K) → List (Token × K)}

/-- A row's block decides within the row's extent. -/
theorem acceptOutcome_le (d : Device) (row : Nat) :
    (acceptOutcome truncate k r d row).accepted ≤
      clampExtent k (r.currentExtents row) := by
  have hcolumns : ∀ (test : Nat → Bool) (correction bonus : Nat → Token),
      (acceptColumns test correction bonus
        (clampExtent k (r.currentExtents row)) 0).accepted ≤
      clampExtent k (r.currentExtents row) := by
    intro test correction bonus
    have := acceptColumns_le test correction bonus
      (clampExtent k (r.currentExtents row)) 0
    omega
  have hmatch : ∀ targets drafts : Nat → Token,
      matchDrafts targets drafts (clampExtent k (r.currentExtents row)) 0 ≤
      clampExtent k (r.currentExtents row) := by
    intro targets drafts
    have := (matchDrafts_spec targets drafts
      (clampExtent k (r.currentExtents row)) 0).2.1
    omega
  unfold acceptOutcome
  dsimp only
  split <;> split
  · exact hcolumns _ _ _
  · exact hcolumns _ _ _
  · exact hmatch _ _
  · exact hcolumns _ _ _

variable {o : Outcome}

/-- What the writes of an outcome leave in the row. -/
theorem commitRow_view (d : Device) (row : Nat) (ho : o.accepted ≤ k) :
    rowView k row (commitRow k r row o d) =
      { rowView k row d with
        length := d.lengths row + (o.accepted + 1 : Nat)
        anchor := o.terminal
        count := (o.accepted + 1 : Nat)
        accepted := o.accepted
        licensed := fun i =>
          if i < o.accepted then r.drafts (row * k + i)
          else if i = o.accepted then o.terminal else 0
        counts :=
          if 0 < (r.configs row).temperature then
            (o.licensed (fun i => r.drafts (row * k + i))).foldl
              (countToken (r.configs row)) (d.tokenCounts row)
          else d.tokenCounts row } := by
  have hcell : ∀ i, i ≤ k → (commitRow k r row o d).licensedTokens
      (row * (k + 1) + i) =
      if i < o.accepted then r.drafts (row * k + i)
      else if i = o.accepted then o.terminal else 0 := by
    intro i hi
    simp only [commitRow, Function.update_apply, writeRange_own,
      Nat.add_left_cancel_iff, Nat.lt_succ_iff, hi, if_true]
    by_cases heq : i = o.accepted
    · subst heq
      simp
    · simp only [heq, if_false]
  have htokens : (List.range (o.accepted + 1)).map
      (fun i => (commitRow k r row o d).licensedTokens (row * (k + 1) + i)) =
      o.licensed (fun i => r.drafts (row * k + i)) := by
    rw [range_succ, map_append]
    unfold Outcome.licensed
    congr 1
    · refine map_congr_left fun i hi => ?_
      have hlt := mem_range.mp hi
      rw [hcell i (by omega), if_pos hlt]
    · rw [map_singleton, hcell _ ho, if_neg (lt_irrefl _), if_pos rfl]
  simp only [rowView, RowView.mk.injEq]
  refine ⟨by simp [commitRow], by simp [commitRow], by simp [commitRow],
    by simp [commitRow], ?_, ?_, rfl, rfl⟩
  · rw [← htokens]
    unfold commitRow
    dsimp only
    split <;> simp
  · funext i
    by_cases hi : i ≤ k
    · rw [if_pos hi, hcell i hi]
    · rw [if_neg hi, if_neg (by omega), if_neg (by omega)]

/-- The writes of another row are not seen. -/
theorem commitRow_view_ne (d : Device) (hne : other ≠ row) (ho : o.accepted ≤ k) :
    rowView k row (commitRow k r other o d) = rowView k row d := by
  have hne' : row ≠ other := Ne.symm hne
  simp only [rowView, RowView.mk.injEq]
  refine ⟨by simp [commitRow, hne'], by simp [commitRow, hne'],
    by simp [commitRow, hne'], by simp [commitRow, hne'], ?_, ?_, rfl, rfl⟩
  · unfold commitRow
    dsimp only
    split <;> simp [hne']
  · funext i
    by_cases hi : i ≤ k
    · have hcell : row * (k + 1) + i ≠ other * (k + 1) + o.accepted :=
        (cell_ne hne hi ho).symm
      simp only [if_pos hi, commitRow, Function.update_apply, hcell, if_false]
      rw [writeRange_other _ _ hne hi (by omega),
        writeRange_other _ _ hne hi (le_refl _)]
    · rw [if_neg hi, if_neg hi]

theorem acceptRow_view_ne (d : Device) (hne : other ≠ row) :
    rowView k row (acceptRow truncate k r d other) = rowView k row d := by
  have ho : (acceptOutcome truncate k r d other).accepted ≤ k :=
    le_trans (acceptOutcome_le d other) (clampExtent_le _ _)
  unfold acceptRow
  split
  · exact commitRow_view_ne d hne ho
  · split
    · rfl
    · exact commitRow_view_ne d hne ho

variable {d d' : Device}

/-- A block reads its row's view only. -/
theorem acceptOutcome_congr (hview : rowView k row d = rowView k row d') :
    acceptOutcome truncate k r d row = acceptOutcome truncate k r d' row := by
  have hlength : d.lengths row = d'.lengths row :=
    congrArg RowView.length hview
  have hcounts : d.tokenCounts row = d'.tokenCounts row :=
    congrArg RowView.counts hview
  unfold acceptOutcome rowInputs
  rw [hlength, hcounts]

theorem commitRow_congr
    (hview : rowView k row d = rowView k row d') (ho : o.accepted ≤ k) :
    rowView k row (commitRow k r row o d) =
      rowView k row (commitRow k r row o d') := by
  have hlength : d.lengths row = d'.lengths row :=
    congrArg RowView.length hview
  have hcounts : d.tokenCounts row = d'.tokenCounts row :=
    congrArg RowView.counts hview
  rw [commitRow_view d row ho, commitRow_view d' row ho, hview, hlength, hcounts]

theorem acceptRow_congr (hview : rowView k row d = rowView k row d') :
    rowView k row (acceptRow truncate k r d row) =
      rowView k row (acceptRow truncate k r d' row) := by
  have ho : (acceptOutcome truncate k r d' row).accepted ≤ k :=
    le_trans (acceptOutcome_le d' row) (clampExtent_le _ _)
  unfold acceptRow
  rw [acceptOutcome_congr hview]
  split
  · exact commitRow_congr hview ho
  · split
    · exact hview
    · exact commitRow_congr hview ho

/-- The extents an op takes: `dflash2_accept` is promised extents in
range, the other op clamps what it is given. -/
def ExtentTaken (k : Nat) (r : Round K) (row : Nat) : Prop :=
  r.op = .dflash2Accept → 0 ≤ r.currentExtents row ∧ r.currentExtents row ≤ k

/-- The launch's effect on a row: its outcome is committed. -/
theorem acceptDrafts_row (hperm : r.order.Perm (List.range batch))
    (hrow : row < batch) (htaken : ExtentTaken k r row) (d : Device) :
    rowView k row (acceptDrafts truncate k r d) =
      rowView k row
        (commitRow k r row (acceptOutcome truncate k r d row) d) := by
  have haccepted : rowView k row (acceptDrafts truncate k r d) =
      rowView k row (acceptRow truncate k r d row) :=
    foldl_launch (fun d other hne => acceptRow_view_ne d hne)
      (fun d d' hview => acceptRow_congr hview) hperm hrow d
  rw [haccepted]
  unfold acceptRow
  split
  · rfl
  · next hop =>
    obtain ⟨hge, hle⟩ := htaken hop
    rw [if_neg (by omega)]

/-- A round's effect on a row: its verify inputs are written, and its
outcome is committed. -/
theorem decodeRound_row {s s' : Decoding}
    (hround : decodeRound truncate k batch s r = some s')
    (hrow : row < batch) (htaken : ExtentTaken k r row) :
    rowView k row s'.device =
      rowView k row (commitRow k r row (acceptOutcome truncate k r s.device row)
        (prepareVerifyRow k r s.device row)) ∧
    s'.output row = s.output row ++ licensedRow k s'.device row := by
  unfold decodeRound at hround
  split at hround
  · next hperm =>
    simp only [Option.some.injEq] at hround
    subst hround
    refine ⟨?_, by simp [hrow]⟩
    have hprepared := prepareVerifyInputs_view (k := k) hperm hrow s.device
    have hread : acceptOutcome truncate k r
        (prepareVerifyInputs k r s.device) row =
        acceptOutcome truncate k r s.device row :=
      (acceptOutcome_congr hprepared).trans rfl
    have ho : (acceptOutcome truncate k r s.device row).accepted ≤ k :=
      le_trans (acceptOutcome_le s.device row) (clampExtent_le _ _)
    refine (acceptDrafts_row hperm hrow htaken _).trans ?_
    rw [hread]
    exact commitRow_congr hprepared ho
  · exact absurd hround (by simp)

/-- What the host reads for a row is what its outcome licenses. -/
theorem licensedRow_eq (ho : o.accepted ≤ k) {before : Device}
    (hview : rowView k row d = rowView k row (commitRow k r row o before)) :
    licensedRow k d row = o.licensed (fun i => r.drafts (row * k + i)) := by
  have hcommit := hview.trans (commitRow_view before row ho)
  have hcount : d.licensedCounts row = (o.accepted + 1 : Nat) :=
    congrArg RowView.count hcommit
  have hcell : ∀ i, i ≤ k → d.licensedTokens (row * (k + 1) + i) =
      if i < o.accepted then r.drafts (row * k + i)
      else if i = o.accepted then o.terminal else 0 := by
    intro i hi
    have := congrFun (congrArg RowView.licensed hcommit) i
    simpa only [rowView, hi, if_true] using this
  unfold licensedRow Outcome.licensed
  rw [hcount, Int.toNat_natCast, range_succ, map_append]
  congr 1
  · refine map_congr_left fun i hi => ?_
    have hlt := mem_range.mp hi
    rw [hcell i (by omega), if_pos hlt]
  · rw [map_singleton, hcell _ ho, if_neg (lt_irrefl _), if_pos rfl]

-- ============ autoregressive decoding

/-- The first `n` tokens decoded one at a time from a history. -/
def autoregress (f : List Token → Token) : List Token → Nat → List Token
  | _, 0 => []
  | history, n + 1 => f history :: autoregress f (history ++ [f history]) n

@[simp] theorem autoregress_length (f : List Token → Token) :
    ∀ n history, (autoregress f history n).length = n := by
  intro n
  induction n with
  | zero => intro history; rfl
  | succ n ih =>
    intro history
    rw [autoregress, length_cons, ih]

theorem autoregress_add (f : List Token → Token) :
    ∀ m n history,
      autoregress f history (m + n) = autoregress f history m ++
        autoregress f (history ++ autoregress f history m) n := by
  intro m
  induction m with
  | zero => intro n history; simp [autoregress]
  | succ m ih =>
    intro n history
    rw [Nat.succ_add, autoregress, autoregress, ih]
    simp only [cons_append, append_assoc, nil_append]

theorem autoregress_succ (f : List Token → Token) (n : Nat)
    (history : List Token) :
    autoregress f history (n + 1) =
      autoregress f history n ++ [f (history ++ autoregress f history n)] :=
  autoregress_add f n 1 history

/-- A greedy row of a round whose columns hold the target's tokens:
column `i` the next token after the history and the first `i` drafts,
for every column whose drafts are all accepted. -/
structure Verified (k : Nat) (f : List Token → Token)
    (history : List Token) (r : Round K) (row : Nat) : Prop where
  greedy : ¬ 0 < (r.configs row).temperature
  taken : ExtentTaken k r row
  column : ∀ i, i ≤ clampExtent k (r.currentExtents row) →
    (∀ j, j < i → r.targetTokens (row * (k + 1) + j) = r.drafts (row * k + j)) →
    r.targetTokens (row * (k + 1) + i) =
      f (history ++ (List.range i).map (fun j => r.drafts (row * k + j)))

/-- The outcome of a verified row: the target's own next tokens. -/
theorem licensed_autoregress {f : List Token → Token} {history : List Token}
    (hv : Verified k f history r row) :
    (acceptOutcome truncate k r d row).licensed
        (fun i => r.drafts (row * k + i)) =
      autoregress f history
        ((acceptOutcome truncate k r d row).accepted + 1) := by
  have houtcome : acceptOutcome truncate k r d row =
      speculativeAcceptGreedy (rowInputs truncate k r d row) := by
    unfold acceptOutcome
    dsimp only
    rw [if_neg hv.greedy]
    split
    · rfl
    · exact dflash2AcceptGreedy_eq _
  rw [houtcome]
  simp only [speculativeAcceptGreedy, rowInputs]
  obtain ⟨-, hle, hall⟩ := matchDrafts_spec
    (fun i => r.targetTokens (row * (k + 1) + i))
    (fun i => r.drafts (row * k + i))
    (clampExtent k (r.currentExtents row)) 0
  generalize matchDrafts _ _ _ 0 = a at hle hall
  -- the accepted drafts are themselves the target's tokens
  have hpre : ∀ n, n ≤ a →
      (List.range n).map (fun i => r.drafts (row * k + i)) =
        autoregress f history n := by
    intro n
    induction n with
    | zero => intro _; rfl
    | succ n ih =>
      intro hn
      have htarget := hv.column n (by omega)
        (fun j hj => hall j (Nat.zero_le j) (by omega))
      have hdraft := hall n (Nat.zero_le n) (by omega)
      rw [range_succ, map_append, map_singleton,
        autoregress_succ, ih (by omega), ← hdraft]
      rw [htarget, ih (by omega)]
  have hterminal := hv.column a (by omega) (fun j hj => hall j (Nat.zero_le j) hj)
  unfold Outcome.licensed
  rw [autoregress_succ, hpre a (le_refl a), hterminal, hpre a (le_refl a)]

-- ============ the rounds

/-- What one verified round does to a row. -/
theorem decodeRound_verified {f : List Token → Token}
    {history : List Token} {s s' : Decoding} (hrow : row < batch)
    (hround : decodeRound truncate k batch s r = some s')
    (hv : Verified k f (history ++ s.output row) r row) :
    ∃ n, 1 ≤ n ∧ n ≤ clampExtent k (r.currentExtents row) + 1 ∧
      s'.output row = s.output row ++ autoregress f (history ++ s.output row) n ∧
      s'.device.lengths row = s.device.lengths row + n ∧
      (autoregress f (history ++ s.output row) n).getLast? =
        some (s'.device.anchors row) := by
  obtain ⟨hview, houtput⟩ := decodeRound_row hround hrow hv.taken
  have hle : (acceptOutcome truncate k r s.device row).accepted ≤
      clampExtent k (r.currentExtents row) := acceptOutcome_le s.device row
  have hauto : (acceptOutcome truncate k r s.device row).licensed
      (fun i => r.drafts (row * k + i)) = _ := licensed_autoregress hv
  generalize acceptOutcome truncate k r s.device row = o at *
  have ho : o.accepted ≤ k := le_trans hle (clampExtent_le _ _)
  have hcommit := hview.trans (commitRow_view _ row ho)
  have hlength : s'.device.lengths row =
      s.device.lengths row + (o.accepted + 1 : Nat) :=
    congrArg RowView.length hcommit
  have hanchor : s'.device.anchors row = o.terminal :=
    congrArg RowView.anchor hcommit
  refine ⟨o.accepted + 1, Nat.le_add_left 1 _, by omega, ?_, hlength, ?_⟩
  · rw [houtput, licensedRow_eq ho hview, hauto]
  · rw [← hauto, hanchor]
    simp [Outcome.licensed]

/-- Greedy speculative decoding is lossless. In every run of rounds whose
columns were verified for a row, the row's output is the autoregressive
sequence and its length has advanced by it; and in every further round
the row licenses between one and extent + 1 tokens, its anchor is the last
of them, its length advances by their number, and the verify inputs of
the round after are the anchor and the drafts at consecutive
positions. -/
theorem greedy_lossless
    (truncate : SamplingConfig K → (Token → K) → List (Token × K))
    (k batch : Nat) (f : List Token → Token) (history : List Token)
    (row : Nat) (hrow : row < batch) (rounds : List (Round K))
    (s₀ s : Decoding)
    (hrun : run (decodeRound truncate k batch) s₀ rounds = some s)
    (hverified : Along (decodeRound truncate k batch)
      (fun t r => Verified k f (history ++ t.output row) r row) s₀ rounds)
    (hstart : s₀.output row = []) :
    s.output row = autoregress f history (s.output row).length ∧
    s.device.lengths row = s₀.device.lengths row + (s.output row).length ∧
    ∀ (r : Round K) (s' : Decoding),
      Verified k f (history ++ s.output row) r row →
      decodeRound truncate k batch s r = some s' →
      ∃ licensed, s'.output row = s.output row ++ licensed ∧ 1 ≤ licensed.length ∧
        licensed.length ≤ clampExtent k (r.currentExtents row) + 1 ∧
        licensed.getLast? = some (s'.device.anchors row) ∧
        s'.device.lengths row = s.device.lengths row + licensed.length ∧
        ∀ next : Round K, next.order.Perm (List.range batch) →
          ∀ j, j ≤ clampExtent k (next.currentExtents row) →
            (prepareVerifyInputs k next s'.device).verifyIds (row * (k + 1) + j) =
              (if j = 0 then s'.device.anchors row
                else next.drafts (row * k + (j - 1))) ∧
            (prepareVerifyInputs k next s'.device).positions
                (row * (k + 1) + j) = s'.device.lengths row + j := by
  have hinv := run_inv_along
    (C := fun t r => Verified k f (history ++ t.output row) r row)
    (P := fun t =>
      t.output row = autoregress f history (t.output row).length ∧
      t.device.lengths row = s₀.device.lengths row + (t.output row).length)
    (by
      intro t r t' hv hround ⟨hout, hlen⟩
      obtain ⟨n, -, -, hnext, hlength, -⟩ :=
        decodeRound_verified hrow hround hv
      have hsize : (t'.output row).length = (t.output row).length + n := by
        rw [hnext, List.length_append, autoregress_length]
      refine ⟨?_, ?_⟩
      · rw [hsize, autoregress_add, ← hout]
        exact hnext
      · rw [hlength, hsize, hlen]
        push_cast
        ring)
    rounds s₀ s hverified hrun
    (by rw [hstart]; exact ⟨rfl, by simp⟩)
  refine ⟨hinv.1, hinv.2, fun r s' hv hround => ?_⟩
  obtain ⟨n, hpos, hle, hnext, hlength, hanchor⟩ :=
    decodeRound_verified hrow hround hv
  refine ⟨_, hnext, by simpa using hpos, by simpa using hle, hanchor,
    by simpa using hlength, fun next hperm j hj => ?_⟩
  have hk : j ≤ k := Nat.le_trans hj (clampExtent_le _ _)
  have hview := (prepareVerifyInputs_view (k := k) hperm hrow s'.device).trans
    (prepareVerifyRow_view s'.device row)
  have hid := congrFun (congrArg RowView.verifyIds hview) j
  have hposition := congrFun (congrArg RowView.positions hview) j
  simp only [rowView, hk, hj, if_true] at hid hposition
  refine ⟨?_, hposition⟩
  rw [hid]
  split
  · rfl
  · rw [show row * k + j - 1 = row * k + (j - 1) by omega]

/-- A round over one row of two drafts, for the run below. -/
def sampleRound (extent : Int) (drafts targets : List Token) : Round ℚ where
  op := .speculativeAccept
  currentExtents _ := extent
  drafts i := drafts.getD i 0
  selector _ _ := []
  targetTokens i := targets.getD i 0
  logits _ _ := 0
  configs _ := ⟨0, 0, 0, false, fun _ => ⟨rfl, rfl⟩⟩
  uniform _ _ := 0
  order := [0]

/-- An empty output over a device whose row has one token. -/
def sampleStart : Decoding where
  device := ⟨fun _ => 1, fun _ => 5, fun _ => 0, fun _ => 0, fun _ => 0,
    fun _ => 0, fun _ => 0, fun _ _ => 0⟩
  output _ := []

/-- One draft of two accepted, then both under an extent above the
window: the target here decodes the length of its history. -/
theorem greedy_lossless_two_rounds :
    ∃ s, run (decodeRound (fun _ _ => []) 2 1) sampleStart
        [sampleRound 2 [1, 9] [1, 2, 7], sampleRound 5 [3, 4] [3, 4, 5]] =
          some s ∧
      s.output 0 = [1, 2, 3, 4, 5] ∧
      s.output 0 =
        autoregress (fun h => h.length) [5] (s.output 0).length := by
  have hgreedy : ∀ extent drafts targets,
      ¬ 0 < ((sampleRound extent drafts targets).configs 0).temperature :=
    fun _ _ _ => lt_irrefl (0 : ℚ)
  have htaken : ∀ extent drafts targets,
      ExtentTaken 2 (sampleRound extent drafts targets) 0 :=
    fun _ _ _ h => nomatch (h : AcceptOp.speculativeAccept = _)
  refine ⟨_, rfl, by decide +kernel, ?_⟩
  refine (greedy_lossless (fun _ _ => []) 2 1 (fun h => h.length) [5] 0
    (by decide) [sampleRound 2 [1, 9] [1, 2, 7],
      sampleRound 5 [3, 4] [3, 4, 5]] sampleStart _ rfl ?_ rfl).1
  refine ⟨⟨hgreedy _ _ _, htaken _ _ _, ?_⟩, fun s hs => ?_⟩
  · decide +kernel
  · cases hs
    refine ⟨⟨hgreedy _ _ _, htaken _ _ _, ?_⟩, fun _ _ => trivial⟩
    decide +kernel

end Ginfer.Ops
