/-
The positions of generated tokens.

A prompt continued by text is assigned what it was assigned before, and
its new tokens continue from `current` (`assignRuns_continued`). The
runtime counts on from the length instead, with the rope delta between
the two. They agree because after any run the next free position is one
above the largest one given (`assignRun_advanced`) — for a run of pads as
for a run of text, and so for a prompt that ends with a medium.
-/
import Ginfer.Frontend.Processor

namespace Ginfer.Frontend.Multimodal

open Ginfer.Lib List
open Ginfer.Qwen (VisionItem ResidentPrefixIdentity)

-- ============ maxima

/-- The fold of `max` is the largest element, where there is one above
the start. -/
theorem foldl_max_eq {xs : List Int} {a b : Int} (ha : a ≤ b)
    (hle : ∀ x ∈ xs, x ≤ b) (hmem : b ∈ xs) : xs.foldl max a = b := by
  have hgrows : ∀ (xs : List Int) (a : Int), a ≤ xs.foldl max a := by
    intro xs
    induction xs with
    | nil => exact fun a => Int.le_refl a
    | cons x xs ih =>
      exact fun a => Int.le_trans (Int.le_max_left a x) (ih (max a x))
  induction xs generalizing a with
  | nil => exact absurd hmem not_mem_nil
  | cons x xs ih =>
    obtain ⟨hx, hrest⟩ := forall_mem_cons.mp hle
    rw [foldl_cons]
    rcases mem_cons.mp hmem with rfl | hmem
    · rw [Int.max_eq_right ha]
      refine Int.le_antisymm ?_ (hgrows xs b)
      have hbound : ∀ (xs : List Int) (a : Int), a ≤ b →
          (∀ x ∈ xs, x ≤ b) → xs.foldl max a ≤ b := by
        intro xs
        induction xs with
        | nil => exact fun a ha _ => ha
        | cons x xs ih =>
          intro a ha hle
          obtain ⟨hx, hrest⟩ := forall_mem_cons.mp hle
          exact ih (max a x) (Int.max_le.mpr ⟨ha, hx⟩) hrest
      exact hbound xs b (Int.le_refl b) hrest
    · exact ih (Int.max_le.mpr ⟨ha, hx⟩) hrest hmem

-- ============ a run

namespace AssignState

/-- The next free position is above every position given. -/
def Advanced (s : AssignState) : Prop :=
  0 ≤ s.maximum ∧ s.maximum ≤ s.current

end AssignState

variable {s s' : AssignState}

theorem advanced_initial (items : List VisionItem) :
    (AssignState.initial items).Advanced :=
  ⟨Int.le_refl 0, Int.le_refl 0⟩

/-- After a run of text the next position is one above the largest. -/
theorem assignText_advanced (h : s.Advanced) {count : Nat} (hpos : 0 < count) :
    (assignText s count).maximum + 1 = (assignText s count).current := by
  have hmax : (assignText s count).maximum = s.current + (count - 1 : Nat) := by
    refine foldl_max_eq ?_ ?_ ?_
    · have hle := h.2
      omega
    · intro x hx
      obtain ⟨i, hi, rfl⟩ := mem_map.mp hx
      rw [mem_range] at hi
      omega
    · exact mem_map.mpr ⟨count - 1, mem_range.mpr (by omega), rfl⟩
  rw [hmax]
  show s.current + ((count - 1 : Nat) : Int) + 1 = s.current + (count : Int)
  omega

/-- The positions of a grid, and its largest. -/
theorem gridPositions_max {a current : Int} {gh gw : Nat} (ha : a ≤ current)
    (hgh : 0 < gh) (hgw : 0 < gw) :
    (gridPositions current gh gw 0 ++ gridPositions current gh gw 1
        ++ gridPositions current gh gw 2).foldl max a
      = current + (max gh gw : Nat) - 1 := by
  refine foldl_max_eq (by omega) ?_ ?_
  · intro x hx
    rw [mem_append, mem_append] at hx
    rcases hx with (hx | hx) | hx
    · obtain ⟨y, -, hx⟩ := mem_flatMap.mp hx
      obtain ⟨z, -, rfl⟩ := mem_map.mp hx
      omega
    · obtain ⟨y, hy, hx⟩ := mem_flatMap.mp hx
      obtain ⟨z, -, rfl⟩ := mem_map.mp hx
      rw [mem_range] at hy
      omega
    · obtain ⟨y, -, hx⟩ := mem_flatMap.mp hx
      obtain ⟨z, hz, rfl⟩ := mem_map.mp hx
      rw [mem_range] at hz
      omega
  · rw [mem_append, mem_append]
    rcases Nat.le_total gw gh with hle | hle
    · refine Or.inl (Or.inr (mem_flatMap.mpr
        ⟨gh - 1, mem_range.mpr (by omega), ?_⟩))
      refine mem_map.mpr ⟨0, mem_range.mpr hgw, ?_⟩
      rw [Nat.max_eq_left hle]
      omega
    · refine Or.inr (mem_flatMap.mpr ⟨0, mem_range.mpr hgh, ?_⟩)
      refine mem_map.mpr ⟨gw - 1, mem_range.mpr (by omega), ?_⟩
      rw [Nat.max_eq_right hle]
      omega

/-- After a run of pads too. -/
theorem assignVisual_advanced {count index : Nat} {item : VisionItem}
    (h : s.Advanced) (hpos : 0 < count)
    (hok : assignVisual s count index item = .ok s') :
    s'.maximum + 1 = s'.current := by
  unfold assignVisual at hok
  dsimp only at hok
  obtain ⟨hcount, hok⟩ := guard_ok.mp hok
  rw [not_not] at hcount
  rw [hcount] at hpos
  cases hok
  dsimp only
  rw [gridPositions_max h.2 (Nat.pos_of_mul_pos_right hpos)
    (Nat.pos_of_mul_pos_left hpos)]
  omega

variable {run : Nat × Nat}

/-- The cases of a run. -/
theorem assignRun_cases (hok : assignRun s run = .ok s') :
    (run.1 = 0 ∧ s' = assignText s run.2)
      ∨ ∃ cursors index item, assignVisual cursors run.2 index item = .ok s'
        ∧ cursors.current = s.current
        ∧ cursors.maximum = s.maximum
        ∧ cursors.positions = s.positions := by
  unfold assignRun at hok
  dsimp only at hok
  split at hok
  · next htext =>
    cases hok
    exact Or.inl ⟨htext, rfl⟩
  split at hok
  · split at hok
    · cases hok
    · exact Or.inr ⟨_, _, _, hok, rfl, rfl, rfl⟩
  split at hok
  · split at hok
    · cases hok
    · split at hok
      · exact Or.inr ⟨_, _, _, hok, rfl, rfl, rfl⟩
      · exact Or.inr ⟨_, _, _, hok, rfl, rfl, rfl⟩
  · cases hok

theorem assignRun_advanced (h : s.Advanced)
    (hpos : 0 < run.2) (hok : assignRun s run = .ok s') :
    s'.maximum + 1 = s'.current := by
  rcases assignRun_cases hok with
    ⟨-, rfl⟩ | ⟨cursors, index, item, hvisual, hcurrent, hmaximum, -⟩
  · exact assignText_advanced h hpos
  · refine assignVisual_advanced ?_ hpos hvisual
    rw [AssignState.Advanced, hcurrent, hmaximum]
    exact h

/-- The largest position does not shrink. -/
theorem assignRun_maximum_nonneg (h : s.Advanced)
    (hok : assignRun s run = .ok s') : 0 ≤ s'.maximum := by
  have hgrows : ∀ (xs : List Int) (a : Int), 0 ≤ a →
      0 ≤ xs.foldl max a := by
    intro xs
    induction xs with
    | nil => exact fun a ha => ha
    | cons x xs ih => exact fun a ha => ih (max a x) (by omega)
  rcases assignRun_cases hok with
    ⟨-, rfl⟩ | ⟨cursors, index, item, hvisual, -, hmaximum, -⟩
  · exact hgrows _ _ h.1
  · unfold assignVisual at hvisual
    dsimp only at hvisual
    obtain ⟨-, hvisual⟩ := guard_ok.mp hvisual
    cases hvisual
    refine hgrows _ _ ?_
    rw [hmaximum]
    exact h.1

/-- Every token of a run is given a position on every axis. -/
theorem assignRun_length (hok : assignRun s run = .ok s') (axis : Fin 3) :
    (s'.positions axis).length = (s.positions axis).length + run.2 := by
  rcases assignRun_cases hok with
    ⟨-, rfl⟩ | ⟨cursors, index, item, hvisual, -, -, hpositions⟩
  · unfold assignText
    simp
  · unfold assignVisual at hvisual
    dsimp only at hvisual
    obtain ⟨hcount, hvisual⟩ := guard_ok.mp hvisual
    rw [not_not] at hcount
    cases hvisual
    dsimp only
    rw [length_append, hpositions, hcount]
    congr 1
    match axis with
    | 0 => simp [gridPositions]
    | 1 => simp [gridPositions]
    | 2 => simp [gridPositions]

-- ============ the runs

/-- Every run has a token. -/
theorem runsFrom_pos :
    ∀ (types : List Nat) (modality count : Nat), 0 < count →
      ∀ run ∈ runsFrom modality count types, 0 < run.2 := by
  intro types
  induction types with
  | nil =>
    intro modality count hpos run hrun
    obtain rfl := mem_singleton.mp hrun
    exact hpos
  | cons next rest ih =>
    intro modality count hpos run hrun
    rw [runsFrom] at hrun
    split at hrun
    · exact ih modality (count + 1) (Nat.succ_pos count) run hrun
    · rcases mem_cons.mp hrun with rfl | hrun
      · exact hpos
      · exact ih next 1 Nat.one_pos run hrun

/-- After the last run the next position is one above the largest. -/
theorem assignRuns_advanced :
    ∀ (runs : List (Nat × Nat)) (s s' : AssignState), s.Advanced →
      (∀ run ∈ runs, 0 < run.2) → assignRuns s runs = .ok s' →
      s'.Advanced ∧ (runs ≠ [] → s'.maximum + 1 = s'.current) := by
  intro runs
  induction runs with
  | nil =>
    intro s s' h _ hok
    cases hok
    exact ⟨h, fun hne => absurd rfl hne⟩
  | cons run rest ih =>
    intro s s' h hpos hok
    obtain ⟨hfirst, hrest⟩ := forall_mem_cons.mp hpos
    rw [assignRuns] at hok
    obtain ⟨s₁, hrun, hok⟩ := bind_ok.mp hok
    have hnext := assignRun_advanced h hfirst hrun
    have hgrows := assignRun_maximum_nonneg h hrun
    obtain ⟨hlast, hend⟩ := ih s₁ s' ⟨hgrows, by omega⟩ hrest hok
    refine ⟨hlast, fun _ => ?_⟩
    cases rest with
    | nil =>
      cases hok
      exact hnext
    | cons _ _ => exact hend (cons_ne_nil _ _)

/-- The runs are the types. -/
theorem runsFrom_sum :
    ∀ (types : List Nat) (modality count : Nat),
      ((runsFrom modality count types).map (·.2)).sum
        = count + types.length := by
  intro types
  induction types with
  | nil => exact fun modality count => rfl
  | cons next rest ih =>
    intro modality count
    rw [runsFrom, length_cons]
    split
    · rw [ih]
      omega
    · rw [map_cons, sum_cons, ih]
      omega

theorem assignRuns_length (axis : Fin 3) :
    ∀ (runs : List (Nat × Nat)) (s s' : AssignState), assignRuns s runs = .ok s' →
      (s'.positions axis).length
        = (s.positions axis).length + (runs.map (·.2)).sum := by
  intro runs
  induction runs with
  | nil =>
    intro s s' hok
    cases hok
    rfl
  | cons run rest ih =>
    intro s s' hok
    rw [assignRuns] at hok
    obtain ⟨s₁, hrun, hok⟩ := bind_ok.mp hok
    rw [ih s₁ s' hok, assignRun_length hrun, map_cons, sum_cons, Nat.add_assoc]

-- ============ continued text

theorem assignText_zero (s : AssignState) : assignText s 0 = s := by
  unfold assignText
  simp

/-- Text after text is one run of text. -/
theorem assignText_add (s : AssignState) (a b : Nat) :
    assignText (assignText s a) b = assignText s (a + b) := by
  have hrun : (range (a + b)).map (fun (i : Nat) => s.current + (i : Int))
      = (range a).map (fun (i : Nat) => s.current + (i : Int))
        ++ (range b).map
          (fun (i : Nat) => s.current + (a : Int) + (i : Int)) := by
    rw [range_add, map_append, map_map]
    refine congrArg _ (map_congr_left fun i _ => ?_)
    show s.current + ((a + i : Nat) : Int) = _
    omega
  unfold assignText
  dsimp only
  rw [hrun, foldl_append, Nat.add_assoc, Int.natCast_add, ← Int.add_assoc]
  simp only [append_assoc]

/-- Text behind a prompt is assigned after everything before it. -/
theorem assignRuns_continued (n : Nat) :
    ∀ (types : List Nat) (modality count : Nat) (s : AssignState),
      assignRuns s (runsFrom modality count (types ++ List.replicate n 0))
        = (assignRuns s (runsFrom modality count types)).map
        (assignText · n) := by
  intro types
  induction types with
  | nil =>
    intro modality count s
    rw [nil_append]
    have htext : ∀ (n count : Nat), runsFrom 0 count (replicate n 0)
        = [(0, count + n)] := by
      intro n
      induction n with
      | zero => exact fun count => rfl
      | succ n ih =>
        intro count
        rw [replicate_succ, runsFrom, if_pos rfl, ih]
        congr 2
        omega
    by_cases hm : modality = 0
    · rw [hm, htext]
      show Except.ok (assignText s (count + n)) = _
      rw [← assignText_add]
      rfl
    · cases n with
      | zero =>
        rw [replicate_zero]
        cases assignRuns s (runsFrom modality count []) with
        | error e => rfl
        | ok s' => exact congrArg Except.ok (assignText_zero s').symm
      | succ n =>
        have hruns : runsFrom modality count (replicate (n + 1) 0)
            = [(modality, count), (0, n + 1)] := by
          rw [replicate_succ, runsFrom, if_neg (Ne.symm hm), htext,
            Nat.add_comm]
        rw [hruns]
        simp only [runsFrom, assignRuns]
        cases assignRun s (modality, count) with
        | error e => rfl
        | ok s' => rfl
  | cons next rest ih =>
    intro modality count s
    rw [cons_append, runsFrom, runsFrom]
    split
    · exact ih modality (count + 1) s
    · rw [assignRuns, assignRuns]
      cases assignRun s (modality, count) with
      | error e => rfl
      | ok s' => exact ih next 1 s'

/-- The runtime's positions, where they fit. -/
theorem appendGenerated_eq (ropeDelta : Int) :
    ∀ (n : Nat) (r r' : ResidentPrefixIdentity),
      ResidentPrefixIdentity.appendGenerated ropeDelta n r = .ok r' →
      r' = { r with
        tokenTypes := r.tokenTypes ++ List.replicate n 0
        positions := fun axis => r.positions axis
          ++ (List.range n).map fun (i : Nat) =>
            (r.size : Int) + (i : Int) + ropeDelta } := by
  intro n
  induction n with
  | zero =>
    intro r r' h
    cases h
    simp
  | succ n ih =>
    intro r r' h
    rw [ResidentPrefixIdentity.appendGenerated] at h
    cases hone : r.appendOne ropeDelta with
    | error e =>
      rw [hone] at h
      cases h
    | ok r₁ =>
      rw [hone] at h
      have hlast := ih r₁ r' h
      unfold ResidentPrefixIdentity.appendOne at hone
      split at hone
      · cases hone
      split at hone
      · cases hone
      cases hone
      rw [hlast]
      unfold ResidentPrefixIdentity.size
      dsimp only
      rw [append_assoc, range_succ_eq_map, map_cons, map_map, length_append]
      simp only [append_assoc, singleton_append, length_singleton]
      refine congrArg₂ (ResidentPrefixIdentity.mk · · r.visionItems)
        rfl (funext fun axis => congrArg _ ?_)
      refine congrArg₂ cons (by simp) (map_congr_left ?_)
      intro i _
      show _ = (r.tokenTypes.length : Int) + ((i + 1 : Nat) : Int) + ropeDelta
      omega

/-- It returns where the positions are within int32. -/
theorem appendGenerated_returns (ropeDelta : Int) :
    ∀ (n : Nat) (r : ResidentPrefixIdentity), r.size + n ≤ 2 ^ 31 →
      -(2 ^ 31) ≤ (r.size : Int) + ropeDelta →
      (r.size : Int) + n + ropeDelta ≤ 2 ^ 31 →
      ∃ r', ResidentPrefixIdentity.appendGenerated ropeDelta n r
        = .ok r' := by
  intro n
  induction n with
  | zero => exact fun r _ _ _ => ⟨r, rfl⟩
  | succ n ih =>
    intro r hsize hlow hhigh
    rw [ResidentPrefixIdentity.appendGenerated,
      ResidentPrefixIdentity.appendOne, if_neg (by omega),
      if_neg (by omega)]
    have hnext : (r.tokenTypes ++ [0]).length = r.size + 1 := by
      rw [length_append]
      rfl
    refine ih _ ?_ ?_ ?_
    · show (r.tokenTypes ++ [0]).length + n ≤ _
      omega
    · show _ ≤ ((r.tokenTypes ++ [0]).length : Int) + _
      omega
    · show ((r.tokenTypes ++ [0]).length : Int) + n + ropeDelta ≤ _
      omega

-- ============ the prompt

variable {items : List VisionItem}

/-- What `assign_positions` returned, and how its state ended. -/
theorem assignPositions_ok {types : List Nat}
    {out : AssignedPositions} (h : assignPositions types items = .ok out) :
    ∃ s, assignRuns (.initial items) (typeRuns types) = .ok s
      ∧ (s.items.any fun item =>
        item.tokenSpans.length != expectedSpans item) = false
      ∧ out = ⟨s.positions, s.maximum + 1 - (types.length : Int),
        s.items⟩ := by
  unfold assignPositions at h
  cases hruns : assignRuns (.initial items) (typeRuns types) with
  | error e =>
    rw [hruns] at h
    cases h
  | ok s =>
    rw [hruns] at h
    refine ⟨s, rfl, ?_⟩
    cases hany : s.items.any fun item =>
        item.tokenSpans.length != expectedSpans item with
    | true =>
      simp only [bind, Except.bind, hany] at h
      cases h
    | false =>
      simp only [bind, Except.bind, hany] at h
      cases h
      exact ⟨rfl, rfl⟩

/-- What it returns when the runs are assigned and counted. -/
theorem assignPositions_of {types : List Nat}
    (hruns : assignRuns (.initial items) (typeRuns types) = .ok s)
    (hspans : (s.items.any fun item =>
      item.tokenSpans.length != expectedSpans item) = false) :
    assignPositions types items
      = .ok ⟨s.positions, s.maximum + 1 - (types.length : Int), s.items⟩ := by
  unfold assignPositions
  rw [hruns]
  simp only [bind, Except.bind, hspans]
  rfl

/-- A prompt continued by text keeps its positions, its items and its
rope delta, and the new tokens have the positions the runtime gives to
generated ones. -/
theorem generated_positions_agree {types : List Nat}
    {items : List VisionItem} {out : AssignedPositions}
    (hne : types ≠ []) (h : assignPositions types items = .ok out) (n : Nat) :
    ∃ out', assignPositions (types ++ List.replicate n 0) items = .ok out'
      ∧ out'.ropeDelta = out.ropeDelta
      ∧ out'.items = out.items
      ∧ (∀ axis, (out.positions axis).length = types.length
        ∧ out'.positions axis = out.positions axis
          ++ (List.range n).map fun (i : Nat) =>
            (types.length : Int) + (i : Int) + out.ropeDelta)
      ∧ (∀ r', ResidentPrefixIdentity.appendGenerated out.ropeDelta n
            ⟨types, out.positions, out.items⟩ = .ok r' →
          r' = ⟨types ++ List.replicate n 0, out'.positions, out'.items⟩)
      ∧ (types.length + n ≤ 2 ^ 31 →
          (types.length : Int) + n + out.ropeDelta ≤ 2 ^ 31 →
          ∃ r', ResidentPrefixIdentity.appendGenerated out.ropeDelta n
            ⟨types, out.positions, out.items⟩ = .ok r') := by
  obtain ⟨s, hruns, hspans, rfl⟩ := assignPositions_ok h
  cases types with
  | nil => exact absurd rfl hne
  | cons modality rest =>
    have hnonempty : typeRuns (modality :: rest) ≠ [] := by
      intro hnil
      have hsum := runsFrom_sum rest modality 1
      rw [typeRuns] at hnil
      rw [hnil, map_nil, sum_nil] at hsum
      omega
    obtain ⟨⟨hmax, -⟩, hend⟩ := assignRuns_advanced _ _ _ (advanced_initial items)
      (runsFrom_pos rest modality 1 Nat.one_pos) hruns
    have hcurrent := hend hnonempty
    have hlength : ∀ axis, (s.positions axis).length
        = (modality :: rest).length := by
      intro axis
      rw [assignRuns_length axis _ _ _ hruns, typeRuns, runsFrom_sum]
      show 0 + (1 + rest.length) = rest.length + 1
      omega
    have hcontinued : assignRuns (.initial items)
        (typeRuns ((modality :: rest) ++ replicate n 0))
        = .ok (assignText s n) := by
      rw [cons_append, typeRuns, assignRuns_continued]
      rw [typeRuns] at hruns
      rw [hruns]
      rfl
    have hdelta : (assignText s n).maximum + 1
        = s.maximum + 1 + (n : Int) := by
      rcases Nat.eq_zero_or_pos n with rfl | hpos
      · rw [assignText_zero]
        omega
      · rw [assignText_advanced ⟨hmax, by omega⟩ hpos]
        show s.current + (n : Int) = _
        omega
    have hpositions : ∀ axis, (assignText s n).positions axis
        = s.positions axis ++ (range n).map fun (i : Nat) =>
          ((modality :: rest).length : Int) + (i : Int)
            + (s.maximum + 1 - ((modality :: rest).length : Int)) := by
      intro axis
      refine congrArg _ (map_congr_left fun i _ => ?_)
      omega
    refine ⟨⟨(assignText s n).positions, s.maximum + 1
      - ((modality :: rest).length : Int), s.items⟩,
      ?_, rfl, rfl, fun axis => ⟨hlength axis, hpositions axis⟩, ?_, ?_⟩
    · rw [assignPositions_of hcontinued hspans, hdelta,
        length_append, length_replicate]
      refine congrArg (fun delta : Int => Except.ok
        (AssignedPositions.mk (assignText s n).positions delta s.items)) ?_
      omega
    · intro r' hr
      rw [appendGenerated_eq _ n _ r' hr]
      refine congrArg₂ (ResidentPrefixIdentity.mk _ · ·)
        (funext fun axis => ?_) rfl
      exact (hpositions axis).symm
    · intro hsize hhigh
      refine appendGenerated_returns _ n _ hsize ?_ hhigh
      show _ ≤ ((modality :: rest).length : Int)
        + (s.maximum + 1 - ((modality :: rest).length : Int))
      omega

/-- A picture of sixteen patches. -/
def smallPicture : VisionItem where
  modality := .image
  grid := ⟨1, 4, 4⟩
  patchBegin := 0
  patchCount := 16
  contentDigest := 7
  timestamps := []
  tokenSpans := []

/-- A prompt that ends with a picture: its four pads are worth two
positions, and the tokens generated after it begin at three. -/
theorem generated_positions_agree_picture :
    ∃ out out', assignPositions [0, 1, 1, 1, 1] [smallPicture] = .ok out
      ∧ assignPositions ([0, 1, 1, 1, 1] ++ List.replicate 2 0)
          [smallPicture] = .ok out'
      ∧ out.ropeDelta = -2 ∧ out'.ropeDelta = out.ropeDelta
      ∧ out'.positions 0 = [0, 1, 1, 1, 1, 3, 4] := by
  have hne : [0, 1, 1, 1, 1] ≠ [] := cons_ne_nil _ _
  obtain ⟨out', hout, hdelta, -, hpositions, -⟩ :=
    @generated_positions_agree _ [smallPicture] _ hne rfl 2
  exact ⟨_, out', rfl, hout, by decide, hdelta,
    (hpositions 0).2.trans (by decide)⟩

end Ginfer.Frontend.Multimodal
