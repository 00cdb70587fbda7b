/-
The runs of pads are those of the items, in order.

`assign_positions` looks for the next picture and the next video
separately, so its bookkeeping alone does not tie the order of the runs
to that of the items. The text does: the pads of the tokens are among the
pads of the items (`encodeText_pads`), and because every item got as many
tokens as it has pads (`assignRuns_total`), they are all of them. From
there the runs are followed item by item: at each run of pads `Progress`
says which item is due, and that both cursors come to it
(`assignRuns_spans`).
-/
import Ginfer.Frontend.Proofs.Positions
import Ginfer.Frontend.Proofs.Placeholders

namespace Ginfer.Frontend.Multimodal

open Ginfer.Lib List
open Ginfer.Qwen (PromptModality VisionItem TokenSpan)

variable {s s' : AssignState}

-- ============ a run of pads

/-- A run of the item at `index`: it has the item's size, and the item is
given the span. -/
structure Consumes (s s' : AssignState) (m : PromptModality)
    (count index : Nat) (item : VisionItem) : Prop where
  found : s.items[index]? = some item
  size : count = frameTokens item.grid
  begin_eq : s'.begin = s.begin + count
  items_eq : s'.items = s.items.modify index fun item =>
    { item with tokenSpans := item.tokenSpans ++ [⟨s.begin, count⟩] }

variable {m : PromptModality} {count : Nat} {item : VisionItem}

theorem consumes_of_visual {cursors : AssignState} {index : Nat}
    (hok : assignVisual cursors count index item = .ok s')
    (hbegin : cursors.begin = s.begin) (hitems : cursors.items = s.items)
    (hfound : s.items[index]? = some item) :
    Consumes s s' m count index item ∧ s'.imageIndex = cursors.imageIndex
      ∧ s'.videoIndex = cursors.videoIndex
      ∧ s'.videoT = cursors.videoT := by
  unfold assignVisual at hok
  dsimp only at hok
  split at hok
  · cases hok
  · next hcount =>
    rw [not_not] at hcount
    cases hok
    dsimp only
    rw [hbegin, hitems]
    exact ⟨⟨hfound, hcount, rfl, rfl⟩, rfl, rfl, rfl⟩

/-- A run of picture pads goes to the next picture. -/
theorem assignRun_image
    (hok : assignRun s (PromptModality.image.code, count) = .ok s') :
    ∃ item, Consumes s s' .image count (nextItem .image s.items s.imageIndex) item
      ∧ s'.imageIndex = nextItem .image s.items s.imageIndex + 1
      ∧ s'.videoIndex = s.videoIndex
      ∧ s'.videoT = s.videoT := by
  unfold assignRun at hok
  dsimp only at hok
  rw [if_neg (by decide), if_pos rfl] at hok
  split at hok
  · cases hok
  · next item hitem =>
    exact ⟨item, consumes_of_visual hok rfl rfl hitem⟩

/-- A run of video pads goes to the current video, and on after its last
frame. -/
theorem assignRun_video
    (hok : assignRun s (PromptModality.video.code, count) = .ok s') :
    ∃ item, Consumes s s' .video count (nextItem .video s.items s.videoIndex) item
      ∧ s'.imageIndex = s.imageIndex
      ∧ (s'.videoIndex, s'.videoT)
        = if (s.videoT : Int) + 1 = item.grid.temporal
        then (nextItem .video s.items s.videoIndex + 1, 0)
        else (nextItem .video s.items s.videoIndex, s.videoT + 1) := by
  unfold assignRun at hok
  dsimp only at hok
  rw [if_neg (by decide), if_neg (by decide), if_pos rfl] at hok
  split at hok
  · cases hok
  · next item hitem =>
    split at hok
    · next hlast =>
      obtain ⟨hconsumes, himage, hvideo, ht⟩ :=
        consumes_of_visual (s := s) (m := .video) hok rfl rfl hitem
      exact ⟨item, hconsumes, himage, by rw [if_pos hlast, hvideo, ht]⟩
    · next hmore =>
      obtain ⟨hconsumes, himage, hvideo, ht⟩ :=
        consumes_of_visual (s := s) (m := .video) hok rfl rfl hitem
      exact ⟨item, hconsumes, himage, by rw [if_neg hmore, hvideo, ht]⟩

/-- The modality of a type. -/
def codeModality : Nat → Option PromptModality
  | 1 => some .image
  | 2 => some .video
  | _ => none

theorem codeModality_eq_some {code : Nat} :
    codeModality code = some m ↔ code = m.code := by
  unfold codeModality
  cases m with
  | image => split <;> simp_all [PromptModality.code]
  | video => split <;> simp_all [PromptModality.code]

/-- A run is text, or goes to an item. -/
theorem assignRun_consumes {run : Nat × Nat} (hok : assignRun s run = .ok s') :
    (codeModality run.1 = none ∧ run.1 = 0 ∧ s' = assignText s run.2)
      ∨ ∃ m index item, codeModality run.1 = some m
        ∧ Consumes s s' m run.2 index item := by
  obtain ⟨code, count⟩ := run
  dsimp only
  by_cases htext : code = 0
  · subst htext
    cases hok
    exact .inl ⟨rfl, rfl, rfl⟩
  by_cases himage : code = PromptModality.image.code
  · subst himage
    obtain ⟨item, hconsumes, -⟩ := assignRun_image hok
    exact .inr ⟨.image, _, item, rfl, hconsumes⟩
  by_cases hvideo : code = PromptModality.video.code
  · subst hvideo
    obtain ⟨item, hconsumes, -⟩ := assignRun_video hok
    exact .inr ⟨.video, _, item, rfl, hconsumes⟩
  unfold assignRun at hok
  dsimp only at hok
  rw [if_neg htext, if_neg himage, if_neg hvideo] at hok
  cases hok

-- ============ the totals

/-- An item without its spans. -/
def bare (item : VisionItem) : VisionItem := { item with tokenSpans := [] }

/-- The spans of an item cover a frame each. -/
def SpansFit (item : VisionItem) : Prop :=
  ∀ span ∈ item.tokenSpans, span.count = frameTokens item.grid

/-- The tokens of an item. -/
def spanTotal (item : VisionItem) : Nat :=
  (item.tokenSpans.map (·.count)).sum

/-- The pads of a run. -/
def runPads (run : Nat × Nat) : List PromptModality :=
  match codeModality run.1 with
  | none => []
  | some m => List.replicate run.2 m

theorem modify_bare (items : List VisionItem) (index : Nat) (span : TokenSpan) :
    (items.modify index fun item =>
        { item with tokenSpans := item.tokenSpans ++ [span] }).map bare
      = items.map bare := by
  induction items generalizing index with
  | nil => simp
  | cons item items ih =>
    cases index with
    | zero => rfl
    | succ index =>
      rw [modify_succ_cons, map_cons, map_cons, ih]

variable {items : List VisionItem}

theorem modify_total {index : Nat} (hfound : items[index]? = some item)
    (span : TokenSpan) :
    ((items.modify index fun item =>
        { item with tokenSpans := item.tokenSpans ++ [span] }).map spanTotal).sum
      = (items.map spanTotal).sum + span.count := by
  induction items generalizing index with
  | nil => cases hfound
  | cons first items ih =>
    cases index with
    | zero =>
      rw [modify_zero_cons, map_cons, map_cons, sum_cons, sum_cons]
      unfold spanTotal
      simp only [map_append, sum_append, map_cons, map_nil, sum_cons, sum_nil]
      omega
    | succ index =>
      rw [getElem?_cons_succ] at hfound
      rw [modify_succ_cons, map_cons, map_cons,
        sum_cons, sum_cons, ih hfound, add_assoc]

theorem modify_fit {index : Nat} (hfound : items[index]? = some item)
    {span : TokenSpan} (hspan : span.count = frameTokens item.grid)
    (hfit : ∀ item ∈ items, SpansFit item) :
    ∀ item ∈ (items.modify index fun item =>
      { item with tokenSpans := item.tokenSpans ++ [span] }),
      SpansFit item := by
  induction items generalizing index with
  | nil => cases hfound
  | cons first items ih =>
    obtain ⟨hfirst, hrest⟩ := forall_mem_cons.mp hfit
    cases index with
    | zero =>
      cases hfound
      rw [modify_zero_cons]
      refine forall_mem_cons.mpr ⟨fun other hother => ?_, hrest⟩
      rcases mem_append.mp hother with hother | hother
      · exact hfirst other hother
      · rw [mem_singleton.mp hother]
        exact hspan
    | succ index =>
      rw [getElem?_cons_succ] at hfound
      rw [modify_succ_cons]
      exact forall_mem_cons.mpr ⟨hfirst, ih hfound hrest⟩

/-- Over all runs the items keep what they are, and take as many tokens
as there are pads. -/
theorem assignRuns_total :
    ∀ (runs : List (Nat × Nat)) (s s' : AssignState),
      (∀ item ∈ s.items, SpansFit item) → assignRuns s runs = .ok s' →
      s'.items.map bare = s.items.map bare ∧ (∀ item ∈ s'.items, SpansFit item)
        ∧ (s'.items.map spanTotal).sum
        = (s.items.map spanTotal).sum + (runs.flatMap runPads).length := by
  intro runs
  induction runs with
  | nil =>
    intro s s' hfit hok
    cases hok
    exact ⟨rfl, hfit, rfl⟩
  | cons run rest ih =>
    intro s s' hfit hok
    rw [assignRuns] at hok
    obtain ⟨s₁, hrun, hok⟩ := bind_ok.mp hok
    rw [flatMap_cons, length_append]
    rcases assignRun_consumes hrun with
      ⟨hnone, -, rfl⟩ | ⟨m, index, item, hm, hconsumes⟩
    · obtain ⟨hbare, hspans, htotal⟩ :=
        ih (assignText s run.2) s' hfit hok
      refine ⟨hbare, hspans, ?_⟩
      rw [htotal, runPads, hnone, length_nil, zero_add]
      rfl
    · have hfit₁ := @modify_fit _ _ _ hconsumes.found
        ⟨s.begin, run.2⟩ hconsumes.size hfit
      rw [← hconsumes.items_eq] at hfit₁
      obtain ⟨hbare, hspans, htotal⟩ := ih s₁ s' hfit₁ hok
      refine ⟨?_, hspans, ?_⟩
      · rw [hbare, hconsumes.items_eq, modify_bare]
      · rw [htotal, hconsumes.items_eq,
          modify_total hconsumes.found, runPads, hm,
          length_replicate, add_assoc]

/-- The tokens of an item that has all its spans. -/
theorem spanTotal_eq (hfit : SpansFit item)
    (hlength : item.tokenSpans.length = expectedSpans item) :
    spanTotal item = itemPads item := by
  have hsum : ∀ spans : List TokenSpan,
      (∀ span ∈ spans, span.count = frameTokens item.grid) →
      (spans.map (·.count)).sum = spans.length * frameTokens item.grid := by
    intro spans
    induction spans with
    | nil => simp
    | cons span spans ih =>
      intro hfit
      obtain ⟨hspan, hrest⟩ := forall_mem_cons.mp hfit
      rw [map_cons, sum_cons, ih hrest, hspan, length_cons,
        Nat.succ_mul, add_comm]
  unfold spanTotal itemPads
  rw [← hlength]
  exact hsum item.tokenSpans hfit

-- ============ item by item

/-- The spans of the items, with their modalities. -/
def allSpans (items : List VisionItem) : List (PromptModality × TokenSpan) :=
  items.flatMap fun item => item.tokenSpans.map (item.modality, ·)

/-- The runs of pads, with where they stand. -/
def visualRuns (start : Nat) :
    List (Nat × Nat) → List (PromptModality × TokenSpan)
  | [] => []
  | run :: rest =>
    match codeModality run.1 with
    | none => visualRuns (start + run.2) rest
    | some m => (m, ⟨start, run.2⟩) :: visualRuns (start + run.2) rest

/-- The pads an item still waits for. -/
def duePads (item : VisionItem) : List PromptModality :=
  List.replicate ((expectedSpans item - item.tokenSpans.length)
    * frameTokens item.grid) item.modality

/-- The item that is due has as many spans as the video cursor says, and
waits for another; those after it have none. -/
def Due (videoT : Nat) : List VisionItem → Prop
  | [] => videoT = 0
  | item :: later =>
    item.tokenSpans.length = videoT ∧ videoT < expectedSpans item
      ∧ ∀ other ∈ later, other.tokenSpans = []

/-- The items before the due one are done with, and both cursors have
passed those of their kind. -/
structure Progress (s : AssignState) (done rest : List VisionItem) :
    Prop where
  items_eq : s.items = done ++ rest
  image_le : s.imageIndex ≤ done.length
  video_le : s.videoIndex ≤ done.length
  images : ∀ item ∈ done.drop s.imageIndex, item.modality ≠ .image
  videos : ∀ item ∈ done.drop s.videoIndex, item.modality ≠ .video
  due : Due s.videoT rest

/-- A cursor comes to the item that is due. -/
theorem nextItem_eq {done later : List VisionItem}
    {index : Nat} (hle : index ≤ done.length)
    (hpassed : ∀ other ∈ done.drop index, other.modality ≠ m)
    (hitem : item.modality = m) :
    nextItem m (done ++ item :: later) index = done.length := by
  unfold nextItem
  rw [drop_append_of_le_length hle, takeWhile_append_of_pos
    (fun other hother => by simpa using hpassed other hother),
    takeWhile_cons_of_neg (by simp [hitem]), append_nil,
    length_drop]
  omega

theorem modify_append_length (f : VisionItem → VisionItem)
    (done later : List VisionItem) (item : VisionItem) :
    (done ++ item :: later).modify done.length f
      = done ++ f item :: later := by
  induction done with
  | nil => rfl
  | cons first done ih =>
    rw [cons_append, length_cons, modify_succ_cons, ih]
    rfl

/-- The item behind a finished one is due next. -/
theorem due_next {later : List VisionItem}
    (hplace : ∀ item ∈ later, Placeable item)
    (hempty : ∀ item ∈ later, item.tokenSpans = []) : Due 0 later := by
  cases later with
  | nil => rfl
  | cons item later =>
    obtain ⟨hitem, hrest⟩ := forall_mem_cons.mp hempty
    refine ⟨by rw [hitem]; rfl, (hplace item mem_cons_self).2, hrest⟩

/-- What a run of pads of the due item leaves. -/
theorem assignRun_due {done later : List VisionItem}
    (h : Progress s done (item :: later))
    (hplace : ∀ other ∈ item :: later, Placeable other)
    (hm : item.modality = m) (hok : assignRun s (m.code, count) = .ok s') :
    ∃ done' rest', Progress s' done' rest' ∧ (∀ other ∈ rest', Placeable other)
      ∧ (item :: later).flatMap duePads
        = List.replicate count m ++ rest'.flatMap duePads
      ∧ s'.begin = s.begin + count
      ∧ allSpans s'.items = allSpans s.items ++ [(m, ⟨s.begin, count⟩)] := by
  obtain ⟨hspans, hwaits, hempty⟩ := h.due
  obtain ⟨hitemPlace, hlater⟩ := forall_mem_cons.mp hplace
  -- The span goes to the due item.
  have hgiven : ∀ {index : Nat} {found : VisionItem},
      index = done.length → Consumes s s' m count index found →
      found = item ∧ s'.items = done
        ++ { item with
          tokenSpans := item.tokenSpans ++ [⟨s.begin, count⟩] } :: later := by
    intro index found hindex hconsumes
    have hfound := hconsumes.found
    rw [hindex, h.items_eq, getElem?_append_right (le_refl _),
      Nat.sub_self] at hfound
    refine ⟨(Option.some_inj.mp hfound).symm, ?_⟩
    rw [hconsumes.items_eq, h.items_eq, hindex, modify_append_length]
  have hall : s'.items = done ++ { item with
        tokenSpans := item.tokenSpans ++ [⟨s.begin, count⟩] } :: later →
      allSpans s'.items = allSpans s.items ++ [(m, ⟨s.begin, count⟩)] := by
    intro hitems
    have hnone : later.flatMap (fun other =>
        other.tokenSpans.map (other.modality, ·)) = [] := by
      rw [flatMap_eq_nil_iff]
      intro other hother
      rw [hempty other hother]
      rfl
    unfold allSpans
    rw [hitems, h.items_eq, flatMap_append, flatMap_append,
      flatMap_cons, flatMap_cons, hnone, hm]
    simp
  cases m with
  | image =>
    obtain ⟨found, hconsumes, himage, hvideo, ht⟩ := assignRun_image hok
    have hindex := @nextItem_eq _ _ _ later _ h.image_le h.images hm
    rw [← h.items_eq] at hindex
    obtain ⟨rfl, hitems⟩ := hgiven hindex hconsumes
    unfold expectedSpans at hwaits
    rw [hm] at hwaits
    dsimp only at hwaits
    have hzero : s.videoT = 0 := by omega
    refine ⟨done ++ [{ found with
      tokenSpans := found.tokenSpans ++ [⟨s.begin, count⟩] }], later,
      ⟨?_, ?_, ?_, ?_, ?_, ?_⟩, hlater, ?_, hconsumes.begin_eq,
      hall hitems⟩
    · rw [hitems, append_assoc]
      rfl
    · rw [himage, hindex, length_append]
      rfl
    · rw [hvideo, length_append]
      exact Nat.le_add_right_of_le h.video_le
    · rw [himage, hindex, drop_of_length_le (by simp)]
      exact fun other hother => absurd hother not_mem_nil
    · rw [hvideo, drop_append_of_le_length h.video_le]
      refine forall_mem_append.mpr ⟨h.videos, fun other hother => ?_⟩
      rw [mem_singleton.mp hother]
      show found.modality ≠ .video
      rw [hm]
      decide
    · rw [ht, hzero]
      exact due_next hlater hempty
    · rw [flatMap_cons, duePads, hspans, hzero]
      unfold expectedSpans
      rw [hm, hconsumes.size]
      simp
  | video =>
    obtain ⟨found, hconsumes, himage, hcursor⟩ := assignRun_video hok
    have hindex := @nextItem_eq _ _ _ later _ h.video_le h.videos hm
    rw [← h.items_eq] at hindex
    obtain ⟨rfl, hitems⟩ := hgiven hindex hconsumes
    have hexpected : expectedSpans found = found.grid.temporal.toNat := by
      unfold expectedSpans
      rw [hm]
    rw [hexpected] at hwaits
    rw [hindex] at hcursor
    by_cases hlast : (s.videoT : Int) + 1 = found.grid.temporal
    · rw [if_pos hlast, Prod.mk.injEq] at hcursor
      obtain ⟨hvideo, ht⟩ := hcursor
      refine ⟨done ++ [{ found with
        tokenSpans := found.tokenSpans ++ [⟨s.begin, count⟩] }], later,
        ⟨?_, ?_, ?_, ?_, ?_, ?_⟩, hlater, ?_, hconsumes.begin_eq,
        hall hitems⟩
      · rw [hitems, append_assoc]
        rfl
      · rw [himage, length_append]
        exact Nat.le_add_right_of_le h.image_le
      · rw [hvideo, length_append]
        rfl
      · rw [himage, drop_append_of_le_length h.image_le]
        refine forall_mem_append.mpr ⟨h.images, fun other hother => ?_⟩
        rw [mem_singleton.mp hother]
        show found.modality ≠ .image
        rw [hm]
        decide
      · rw [hvideo, drop_of_length_le (by simp)]
        exact fun other hother => absurd hother not_mem_nil
      · rw [ht]
        exact due_next hlater hempty
      · rw [flatMap_cons, duePads, hspans, hexpected, hm, hconsumes.size,
          show found.grid.temporal.toNat - s.videoT = 1 by omega,
          one_mul]
    · rw [if_neg hlast, Prod.mk.injEq] at hcursor
      obtain ⟨hvideo, ht⟩ := hcursor
      refine ⟨done, { found with
        tokenSpans := found.tokenSpans ++ [⟨s.begin, count⟩] } :: later,
        ⟨hitems, ?_, ?_, ?_, ?_, ?_⟩,
        forall_mem_cons.mpr ⟨hitemPlace, hlater⟩, ?_,
        hconsumes.begin_eq, hall hitems⟩
      · rw [himage]
        exact h.image_le
      · rw [hvideo]
      · rw [himage]
        exact h.images
      · rw [hvideo, drop_length]
        exact fun other hother => absurd hother not_mem_nil
      · rw [ht]
        refine ⟨?_, ?_, hempty⟩
        · rw [length_append, hspans]
          rfl
        · show s.videoT + 1 < expectedSpans found
          rw [hexpected]
          omega
      · have hsplit : (found.grid.temporal.toNat - s.videoT)
              * frameTokens found.grid
            = frameTokens found.grid
              + (found.grid.temporal.toNat - (s.videoT + 1))
                * frameTokens found.grid := by
          rw [show found.grid.temporal.toNat - s.videoT
            = found.grid.temporal.toNat - (s.videoT + 1) + 1 by omega,
            Nat.succ_mul, add_comm]
        have hgivenPads : duePads { found with
            tokenSpans := found.tokenSpans ++ [⟨s.begin, count⟩] }
            = replicate ((found.grid.temporal.toNat - (s.videoT + 1))
              * frameTokens found.grid) .video := by
          unfold duePads
          rw [length_append, hspans, ← hm, ← hexpected]
          rfl
        rw [flatMap_cons, flatMap_cons, hgivenPads, duePads,
          hspans, hexpected, hm, hsplit, hconsumes.size,
          ← replicate_append_replicate, append_assoc]

/-- Over the runs, the spans given are the runs of pads, in order. -/
theorem assignRuns_spans :
    ∀ (runs : List (Nat × Nat)) (s s' : AssignState)
      (done rest : List VisionItem), Progress s done rest →
      (∀ item ∈ rest, Placeable item) → (∀ run ∈ runs, 0 < run.2) →
      runs.flatMap runPads = rest.flatMap duePads →
      assignRuns s runs = .ok s' →
      allSpans s'.items = allSpans s.items ++ visualRuns s.begin runs := by
  intro runs
  induction runs with
  | nil =>
    intro s s' done rest _ _ _ _ hok
    cases hok
    exact (append_nil _).symm
  | cons run runs ih =>
    intro s s' done rest h hplace hpos hpads hok
    obtain ⟨hfirst, hmore⟩ := forall_mem_cons.mp hpos
    rw [assignRuns] at hok
    cases hrun : assignRun s run with
    | error e =>
      rw [hrun] at hok
      cases hok
    | ok s₁ =>
      rw [hrun] at hok
      rw [flatMap_cons] at hpads
      cases hm : codeModality run.1 with
      | none =>
        rcases assignRun_consumes hrun with
          ⟨-, -, rfl⟩ | ⟨m, _, _, hsome, -⟩
        · have hruns : runPads run = [] := by
            unfold runPads
            rw [hm]
          rw [hruns, nil_append] at hpads
          rw [visualRuns, hm]
          exact ih (assignText s run.2) s' done rest
            { h with } hplace hmore hpads hok
        · rw [hm] at hsome
          cases hsome
      | some m =>
        have hruns : runPads run = replicate run.2 m := by
          unfold runPads
          rw [hm]
        rw [hruns] at hpads
        cases rest with
        | nil =>
          rw [flatMap_nil] at hpads
          have hlength := congrArg length hpads
          rw [length_append, length_replicate, length_nil] at hlength
          omega
        | cons item later =>
          -- The first pad of the run is one of the due item.
          have hitem : item.modality = m := by
            obtain ⟨hspans, hwaits, -⟩ := h.due
            have hframe := (hplace item (.head _)).1
            have hhead := congrArg head? hpads
            have hdue : 0 < (expectedSpans item - item.tokenSpans.length)
                * frameTokens item.grid :=
              mul_pos (by omega) hframe
            obtain ⟨n, hn⟩ : ∃ n, (expectedSpans item - item.tokenSpans.length)
                * frameTokens item.grid = n + 1 :=
              ⟨_, (Nat.sub_add_cancel hdue).symm⟩
            obtain ⟨k, hk⟩ : ∃ k, run.2 = k + 1 :=
              ⟨_, (Nat.sub_add_cancel hfirst).symm⟩
            rw [flatMap_cons, duePads, hn, hk,
              replicate_succ, replicate_succ] at hhead
            exact (Option.some_inj.mp hhead).symm
          have hcode := codeModality_eq_some.mp hm
          obtain ⟨code, count⟩ := run
          dsimp only at hcode hpads hfirst
          subst hcode
          obtain ⟨done', rest', hprogress, hplace', hsplit, hbegin,
            hspans⟩ := assignRun_due h hplace hitem hrun
          rw [hsplit] at hpads
          rw [visualRuns, hm, ih s₁ s' done' rest' hprogress hplace'
            hmore (append_cancel_left hpads) hok, hspans,
            hbegin, append_assoc]
          rfl

-- ============ the prompt

/-- The runs, written out, are the types. -/
theorem runsFrom_flatten :
    ∀ (types : List Nat) (modality count : Nat),
      (runsFrom modality count types).flatMap
        (fun run => List.replicate run.2 run.1)
        = List.replicate count modality ++ types := by
  intro types
  induction types with
  | nil => exact fun modality count => rfl
  | cons next rest ih =>
    intro modality count
    rw [runsFrom]
    split
    · next hsame =>
      rw [ih, replicate_succ', append_assoc, hsame]
      rfl
    · rw [flatMap_cons, ih]
      rfl

theorem typeRuns_flatten (types : List Nat) :
    (typeRuns types).flatMap (fun run => List.replicate run.2 run.1)
      = types := by
  cases types with
  | nil => rfl
  | cons modality rest => exact runsFrom_flatten rest modality 1

theorem typeRuns_pos (types : List Nat) :
    ∀ run ∈ typeRuns types, 0 < run.2 := by
  cases types with
  | nil => exact fun run hrun => absurd hrun not_mem_nil
  | cons modality rest => exact runsFrom_pos rest modality 1 Nat.one_pos

/-- The pads of the runs are those of the types. -/
theorem typeRuns_pads (types : List Nat) :
    (typeRuns types).flatMap runPads = types.filterMap codeModality := by
  conv_rhs => rw [← typeRuns_flatten types, filterMap_flatMap]
  refine flatMap_congr fun run _ => ?_
  unfold runPads
  cases hm : codeModality run.1 with
  | none =>
    symm
    rw [filterMap_eq_nil_iff]
    intro code hcode
    rw [eq_of_mem_replicate hcode]
    exact hm
  | some m => rw [filterMap_replicate_of_some hm]

/-- What an item waits for at the start is all its pads. -/
theorem duePads_fresh (h : item.tokenSpans = []) :
    duePads item = List.replicate (itemPads item) item.modality := by
  unfold duePads itemPads
  rw [h]
  rfl

/-- The spans `assign_positions` gave: every item has its frames, and
together they are the runs of pads in order. -/
theorem assignPositions_spans {types : List Nat}
    {out : AssignedPositions} (h : assignPositions types items = .ok out)
    (hfresh : ∀ item ∈ items, item.tokenSpans = [])
    (hplace : ∀ item ∈ items, Placeable item)
    (hpads : (types.filterMap codeModality).Sublist
      (items.flatMap fun item =>
        List.replicate (itemPads item) item.modality)) :
    out.items.map bare = items.map bare
      ∧ (∀ item ∈ out.items, SpansFit item
        ∧ item.tokenSpans.length = expectedSpans item)
      ∧ allSpans out.items = visualRuns 0 (typeRuns types) := by
  obtain ⟨s, hruns, hcounts, rfl⟩ := assignPositions_ok h
  have hnone : ∀ item ∈ items, spanTotal item = 0 := by
    intro item hitem
    unfold spanTotal
    rw [hfresh item hitem]
    rfl
  obtain ⟨hbare, hfit, htotal⟩ := assignRuns_total (typeRuns types)
    (.initial items) s (fun item hitem span hspan => by
      rw [hfresh item hitem] at hspan
      exact absurd hspan not_mem_nil) hruns
  have hlength : ∀ item ∈ s.items,
      item.tokenSpans.length = expectedSpans item := by
    intro item hitem
    rw [any_eq_false] at hcounts
    simpa using hcounts item hitem
  refine ⟨hbare, fun item hitem => ⟨hfit item hitem, hlength item hitem⟩, ?_⟩
  -- As many tokens as pads, so all of them.
  have hsum : (s.items.map spanTotal).sum = (items.map itemPads).sum := by
    have hspans : s.items.map spanTotal = s.items.map itemPads :=
      map_congr_left fun item hitem =>
        spanTotal_eq (hfit item hitem) (hlength item hitem)
    have hitem : ∀ items : List VisionItem,
        items.map itemPads = (items.map bare).map itemPads := by
      intro items
      rw [map_map]
      rfl
    rw [hspans, hitem s.items, hbare]
    exact congrArg sum (hitem items).symm
  have hzero : (items.map spanTotal).sum = 0 := by
    rw [List.sum_eq_zero_iff_forall_eq_nat]
    intro n hn
    obtain ⟨item, hitem, rfl⟩ := mem_map.mp hn
    exact hnone item hitem
  have hall : types.filterMap codeModality
      = items.flatMap fun item =>
        replicate (itemPads item) item.modality := by
    refine hpads.eq_of_length ?_
    rw [← typeRuns_pads]
    rw [hsum] at htotal
    have hstart : ((AssignState.initial items).items.map spanTotal).sum = 0 :=
      hzero
    rw [hstart, zero_add] at htotal
    rw [← htotal, length_flatMap]
    simp only [length_replicate]
  have hdue : (typeRuns types).flatMap runPads = items.flatMap duePads := by
    rw [typeRuns_pads, hall]
    exact flatMap_congr fun item hitem =>
      (duePads_fresh (hfresh item hitem)).symm
  have hstart : Progress (.initial items) [] items :=
    ⟨rfl, le_refl 0, le_refl 0, fun item hitem => absurd hitem not_mem_nil,
      fun item hitem => absurd hitem not_mem_nil,
      due_next hplace hfresh⟩
  have hspans := assignRuns_spans (typeRuns types) (.initial items) s []
    items hstart hplace (typeRuns_pos types) hdue hruns
  have hempty : allSpans (AssignState.initial items).items = [] := by
    show items.flatMap _ = []
    rw [flatMap_eq_nil_iff]
    intro item hitem
    rw [hfresh item hitem]
    rfl
  rw [hempty, nil_append] at hspans
  exact hspans

end Ginfer.Frontend.Multimodal
