/-
Expanding a text that is cut in two.

`expandRest` is the expansion as a function of the text from `search` on,
without the offset and the text before it (`expandFrom_eq`). Over a cut
that no pad reaches across, it is the expansions of the two parts, with
the items in front of the cut and those behind it (`expandRest_append`),
and a checkpoint at the cut is moved to where the first part ends
(`expandFrom_checkpoint`): it is never inside a placeholder.
-/
import Ginfer.Frontend.Proofs.Placeholders

namespace Ginfer.Frontend.Multimodal

open Ginfer.Lib List Option
open Ginfer.Frontend.ChatTemplate
open Ginfer.Qwen (PromptModality VisionItem)

-- ============ the text to expand

/-- The first placeholder of a text, where it is one of `m`. -/
def nextPad (m : PromptModality) (text : Bytes) : Option Nat :=
  match find text (padOf m) with
  | none => none
  | some i => if (find text (otherPadOf m)).any (· < i) then none else some i

/-- The expansion of a text. -/
def expandRest : List VisionItem → Bytes → Except Exception Bytes
  | [], text =>
    if (find text imagePad).isSome || (find text videoPad).isSome then
      .error (.invalidArgument "rendered chat has unbound vision placeholders")
    else .ok text
  | item :: items, text =>
    match nextPad item.modality text with
    | none =>
      .error (.invalidArgument
        "chat media order does not match rendered placeholders")
    | some i => do
      let replacement ← placeholder item
      let more ← expandRest items (text.drop (i + (padOf item.modality).length))
      return text.take i ++ replacement ++ more

variable {text : Bytes} {i : Nat}

/-- The first placeholder, by its occurrences. -/
theorem nextPad_some {m : PromptModality} :
    nextPad m text = some i ↔ OccursAt (padOf m) text i
      ∧ ∀ j < i, ∀ m', ¬ OccursAt (padOf m') text j := by
  have hboth : ∀ m' : PromptModality,
      padOf m' = padOf m ∨ padOf m' = otherPadOf m := by
    intro m'
    cases m <;> cases m' <;> simp [padOf, otherPadOf]
  have hother : otherPadOf m ≠ [] := by cases m <;> decide
  unfold nextPad
  constructor
  · intro h
    cases hfind : find text (padOf m) with
    | none =>
      rw [hfind] at h
      cases h
    | some k =>
      rw [hfind] at h
      dsimp only at h
      split at h
      · cases h
      · next hbefore =>
        cases h
        obtain ⟨hocc, hfirst⟩ := find_eq_some hfind
        refine ⟨hocc, fun j hj m' hm' => ?_⟩
        rcases hboth m' with hsame | hdiff
        · rw [hsame] at hm'
          exact hfirst j hj hm'
        · rw [hdiff] at hm'
          cases hfindOther : find text (otherPadOf m) with
          | none => exact (find_eq_none hother).mp hfindOther j hm'
          | some l =>
            rw [hfindOther, any_some, decide_eq_true_iff] at hbefore
            exact (find_eq_some hfindOther).2 j (by omega) hm'
  · rintro ⟨hocc, hfirst⟩
    have hfind := find_of_occursAt (padOf_framed m).ne_nil hocc
      fun j hj => hfirst j hj m
    rw [hfind]
    dsimp only
    rw [if_neg]
    intro hbefore
    cases hfindOther : find text (otherPadOf m) with
    | none =>
      rw [hfindOther] at hbefore
      cases hbefore
    | some l =>
      rw [hfindOther, any_some, decide_eq_true_iff] at hbefore
      have hoccOther := (find_eq_some hfindOther).1
      cases m with
      | image => exact hfirst l hbefore .video hoccOther
      | video => exact hfirst l hbefore .image hoccOther

variable {out : Bytes}

/-- A text without placeholders is its own expansion. -/
theorem expandRest_nil :
    expandRest [] text = .ok out ↔ text = out
      ∧ ∀ j, ∀ m, ¬ OccursAt (padOf m) text j := by
  rw [expandRest]
  constructor
  · intro h
    split at h
    · cases h
    · next hnone =>
      cases h
      rw [Bool.or_eq_true, not_or, Bool.not_eq_true,
        isSome_eq_false_iff, Bool.not_eq_true,
        isSome_eq_false_iff, isNone_iff_eq_none,
        isNone_iff_eq_none] at hnone
      refine ⟨rfl, fun j m => ?_⟩
      cases m with
      | image => exact (find_eq_none (by decide)).mp hnone.1 j
      | video => exact (find_eq_none (by decide)).mp hnone.2 j
  · rintro ⟨rfl, hnone⟩
    have himage : find text imagePad = none :=
      (find_eq_none (by decide)).mpr fun j => hnone j .image
    have hvideo : find text videoPad = none :=
      (find_eq_none (by decide)).mpr fun j => hnone j .video
    rw [himage, hvideo]
    rfl

/-- A turn of the expansion. -/
theorem expandRest_cons {item : VisionItem} {items : List VisionItem} :
    expandRest (item :: items) text = .ok out ↔
      ∃ i replacement more, nextPad item.modality text = some i
        ∧ placeholder item = .ok replacement
        ∧ expandRest items (text.drop (i + (padOf item.modality).length))
        = .ok more
        ∧ out = text.take i ++ replacement ++ more := by
  rw [expandRest]
  constructor
  · intro h
    cases hpad : nextPad item.modality text with
    | none =>
      rw [hpad] at h
      cases h
    | some i =>
      rw [hpad] at h
      dsimp only [bind, Except.bind] at h
      cases hreplacement : placeholder item with
      | error e =>
        rw [hreplacement] at h
        cases h
      | ok replacement =>
        rw [hreplacement] at h
        dsimp only at h
        cases hmore : expandRest items
            (text.drop (i + (padOf item.modality).length)) with
        | error e =>
          rw [hmore] at h
          cases h
        | ok more =>
          rw [hmore] at h
          cases h
          exact ⟨i, replacement, more, rfl, rfl, hmore, rfl⟩
  · rintro ⟨i, replacement, more, hpad, hreplacement, hmore, rfl⟩
    rw [hpad]
    dsimp only [bind, Except.bind]
    rw [hreplacement]
    dsimp only
    rw [hmore]
    rfl

/-- A text without placeholders takes no item. -/
theorem expandRest_plain {items : List VisionItem}
    (hplain : ∀ j, ∀ m, ¬ OccursAt (padOf m) text j)
    (h : expandRest items text = .ok out) : items = [] ∧ out = text := by
  cases items with
  | nil => exact ⟨rfl, (expandRest_nil.mp h).1.symm⟩
  | cons item items =>
    obtain ⟨i, -, -, hpad, -⟩ := expandRest_cons.mp h
    exact absurd (nextPad_some.mp hpad).1 (hplain i item.modality)

-- ============ the checkpoint

variable {c : RewriteCheckpointByteSpec}

/-- A checkpoint in front of the replaced placeholder stays. -/
theorem relocate_before
    {position needle replacement : Nat} (h : c.offset ≤ position)
    (hpos : 0 < needle) :
    relocate (some c) position needle replacement = .ok (some c) := by
  unfold relocate
  dsimp only
  rw [if_neg (by omega), if_neg (by omega)]

/-- One behind it moves with the text. -/
theorem relocate_behind
    {position needle replacement : Nat} (h : position + needle ≤ c.offset) :
    relocate (some c) position needle replacement
      = .ok (some { c with offset := c.offset - needle + replacement }) := by
  unfold relocate
  dsimp only
  rw [if_neg (by omega), if_pos h]

-- ============ the loop

variable {items : List VisionItem} {item : VisionItem}

theorem findFrom_done (done rest pattern : Bytes) :
    findFrom (done ++ rest) pattern done.length
      = (find rest pattern).map (done.length + ·) := by
  unfold findFrom
  rw [drop_left' rfl]

/-- The end of the loop. -/
theorem expandFrom_nil {done rest : Bytes}
    (checkpoint : Option RewriteCheckpointByteSpec)
    (h : expandRest [] rest = .ok out) :
    expandFrom [] done.length ⟨done ++ rest, checkpoint⟩
      = .ok ⟨done ++ out, checkpoint⟩ := by
  obtain ⟨rfl, hnone⟩ := expandRest_nil.mp h
  have himage : find rest imagePad = none :=
    (find_eq_none (by decide)).mpr fun j => hnone j .image
  have hvideo : find rest videoPad = none :=
    (find_eq_none (by decide)).mpr fun j => hnone j .video
  rw [expandFrom, findFrom_done, findFrom_done, himage, hvideo]
  rfl

/-- A turn of the loop, by the text from `search` on. -/
theorem expandFrom_turn (item : VisionItem) (items : List VisionItem)
    (done rest : Bytes) (checkpoint : Option RewriteCheckpointByteSpec) :
    expandFrom (item :: items) done.length ⟨done ++ rest, checkpoint⟩
      = (match nextPad item.modality rest with
        | none =>
        .error (.invalidArgument
          "chat media order does not match rendered placeholders")
        | some i => do
        let replacement ← placeholder item
        let relocated ← relocate checkpoint (done.length + i)
          (padOf item.modality).length replacement.length
        expandFrom items (done.length + i + replacement.length)
          ⟨done ++ rest.take i ++ replacement
            ++ rest.drop (i + (padOf item.modality).length),
            relocated⟩) := by
  rw [expandFrom, findFrom_done, findFrom_done]
  unfold nextPad
  cases find rest (padOf item.modality) with
  | none => rfl
  | some i =>
    have hbefore : ((find rest (otherPadOf item.modality)).map
        (done.length + ·)).any (· < done.length + i)
        = (find rest (otherPadOf item.modality)).any (· < i) := by
      cases find rest (otherPadOf item.modality) with
      | none => rfl
      | some l =>
        rw [map_some, any_some, any_some]
        exact decide_eq_decide.mpr (by omega)
    have htake : (done ++ rest).take (done.length + i)
        = done ++ rest.take i := by
      rw [take_append, take_of_length_le (by omega), Nat.add_sub_cancel_left]
    have hdrop : (done ++ rest).drop
        (done.length + i + (padOf item.modality).length)
        = rest.drop (i + (padOf item.modality).length) := by
      rw [Nat.add_assoc, drop_append,
        drop_of_length_le (by omega), Nat.add_sub_cancel_left,
        nil_append]
    dsimp only [map_some]
    rw [hbefore, htake, hdrop]
    split
    · rfl
    · rfl

/-- A turn that finds its placeholder. -/
theorem expandFrom_step {done rest replacement : Bytes}
    {checkpoint relocated : Option RewriteCheckpointByteSpec}
    (hpad : nextPad item.modality rest = some i)
    (hreplacement : placeholder item = .ok replacement)
    (hrelocated : relocate checkpoint (done.length + i)
      (padOf item.modality).length replacement.length = .ok relocated) :
    expandFrom (item :: items) done.length ⟨done ++ rest, checkpoint⟩
      = expandFrom items (done ++ rest.take i ++ replacement).length
        ⟨done ++ rest.take i ++ replacement
          ++ rest.drop (i + (padOf item.modality).length),
          relocated⟩ := by
  have hle := (nextPad_some.mp hpad).1.length_le (padOf_framed _).ne_nil
  have hlength : (done ++ rest.take i ++ replacement).length
      = done.length + i + replacement.length := by
    rw [length_append, length_append, length_take, Nat.min_eq_left (by omega)]
  rw [expandFrom_turn, hpad, hlength]
  dsimp only [bind, Except.bind]
  rw [hreplacement]
  dsimp only
  rw [hrelocated]

/-- A checkpoint no placeholder stands before stays where it is. -/
theorem expandFrom_keeps :
    ∀ (items : List VisionItem) (done rest out : Bytes),
      (∀ j, ∀ m, OccursAt (padOf m) rest j → c.offset ≤ done.length + j) →
      expandRest items rest = .ok out →
      expandFrom items done.length ⟨done ++ rest, some c⟩
        = .ok ⟨done ++ out, some c⟩ := by
  intro items
  induction items with
  | nil => exact fun done rest out _ h => expandFrom_nil (some c) h
  | cons item items ih =>
    intro done rest out hbehind h
    obtain ⟨i, replacement, more, hpad, hreplacement, hmore, rfl⟩ :=
      expandRest_cons.mp h
    have hocc := (nextPad_some.mp hpad).1
    have hle := hbehind i _ hocc
    have hpos := length_pos_iff.mpr (padOf_framed item.modality).ne_nil
    rw [expandFrom_step hpad hreplacement (relocate_before hle hpos)]
    have hlength : c.offset ≤ (done ++ rest.take i ++ replacement).length := by
      have hshort := hocc.length_le (padOf_framed _).ne_nil
      rw [length_append, length_append, length_take, Nat.min_eq_left (by omega)]
      omega
    rw [ih _ _ more (fun j m _ => by omega) hmore]
    simp only [append_assoc]

-- ============ the cut

/-- No pad reaches across the cut. -/
def Apart (front back : Bytes) : Prop := Closed 0x3e front ∨ Opens 0x3c back

variable {back : Bytes}

/-- What begins in front of the cut ends there. -/
theorem occursAt_apart {front : Bytes} (h : Apart front back)
    {m : PromptModality} (hi : i < front.length) :
    OccursAt (padOf m) (front ++ back) i ↔ OccursAt (padOf m) front i := by
  have hne : front.drop i ≠ [] := by
    rw [Ne, drop_eq_nil_iff]
    omega
  unfold OccursAt
  rw [drop_append_of_le_length (by omega)]
  rcases h with hclosed | hopens
  · refine (padOf_framed m).prefix_append_of_closed hne ?_
    rcases hclosed with hnil | hlast
    · rw [hnil] at hi
      exact absurd hi (Nat.not_lt_zero i)
    · refine Or.inr ?_
      rw [List.getLast?_drop, if_neg (by omega), hlast]
  · exact (padOf_framed m).prefix_append_of_opens hne hopens

/-- Behind it, what occurs is what occurs in the text there. -/
theorem occursAt_behind {pattern front : Bytes} (j : Nat) :
    OccursAt pattern (front ++ back) (front.length + j)
      ↔ OccursAt pattern back j := by
  unfold OccursAt
  rw [drop_append, drop_of_length_le (by omega),
    Nat.add_sub_cancel_left, nil_append]

/-- The expansion over a cut: the items in front of it and those behind
it, and a checkpoint at the cut moves to the end of the first part. -/
theorem expandFrom_checkpoint (kind : RewriteCheckpointKind) :
    ∀ (items : List VisionItem) (done front out : Bytes),
      Apart front back → expandRest items (front ++ back) = .ok out →
      ∃ items₁ items₂ front' back', items = items₁ ++ items₂
        ∧ expandRest items₁ front = .ok front'
        ∧ expandRest items₂ back = .ok back'
        ∧ out = front' ++ back'
        ∧ expandFrom items done.length ⟨done ++ (front ++ back),
            some ⟨kind, (done ++ front).length⟩⟩
          = .ok ⟨done ++ out, some ⟨kind, (done ++ front').length⟩⟩ := by
  intro items
  induction items with
  | nil =>
    intro done front out hapart h
    obtain ⟨rfl, hnone⟩ := expandRest_nil.mp h
    refine ⟨[], [], front, back, rfl, expandRest_nil.mpr ⟨rfl, ?_⟩,
      expandRest_nil.mpr ⟨rfl, ?_⟩, rfl, expandFrom_nil _ h⟩
    · exact fun j m hocc =>
        hnone j m (hocc.append (padOf_framed m).ne_nil back)
    · exact fun j m hocc => hnone _ m (occursAt_behind j |>.mpr hocc)
  | cons item items ih =>
    intro done front out hapart h
    obtain ⟨i, replacement, more, hpad, hreplacement, hmore, hout⟩ :=
      expandRest_cons.mp h
    obtain ⟨hocc, hfirst⟩ := nextPad_some.mp hpad
    have hpos := length_pos_iff.mpr (padOf_framed item.modality).ne_nil
    by_cases hi : i < front.length
    · -- The placeholder is in front of the cut.
      have hfront := (occursAt_apart hapart hi).mp hocc
      have hle := hfront.length_le (padOf_framed _).ne_nil
      have hfrontPad : nextPad item.modality front = some i :=
        nextPad_some.mpr ⟨hfront, fun j hj m hm => hfirst j hj m
          (hm.append (padOf_framed m).ne_nil back)⟩
      rw [drop_append_of_le_length hle] at hmore
      have hapart' : Apart
          (front.drop (i + (padOf item.modality).length)) back := by
        rcases hapart with hclosed | hopens
        · refine Or.inl ?_
          rcases hclosed with hnil | hlast
          · rw [hnil, drop_nil]
            exact Or.inl rfl
          · rcases Nat.lt_or_ge (i + (padOf item.modality).length)
              front.length with hlt | hge
            · refine Or.inr ?_
              rw [List.getLast?_drop, if_neg (by omega), hlast]
            · exact Or.inl (drop_of_length_le hge)
        · exact Or.inr hopens
      obtain ⟨items₁, items₂, front', back', rfl, hfront', hback', rfl,
        hloop⟩ := ih (done ++ front.take i ++ replacement) _ more hapart' hmore
      refine ⟨item :: items₁, items₂, front.take i ++ replacement ++ front',
        back', rfl, ?_, hback', ?_, ?_⟩
      · exact expandRest_cons.mpr ⟨i, replacement, front', hfrontPad,
          hreplacement, hfront', rfl⟩
      · rw [hout, take_append_of_le_length (by omega)]
        simp only [append_assoc]
      · have hmoved : relocate (some ⟨kind, (done ++ front).length⟩)
            (done.length + i) (padOf item.modality).length
            replacement.length = .ok (some ⟨kind, (done ++ front).length
              - (padOf item.modality).length + replacement.length⟩) := by
          refine relocate_behind ?_
          dsimp only
          rw [length_append]
          omega
        rw [expandFrom_step hpad hreplacement hmoved, hout,
          take_append_of_le_length (by omega),
          drop_append_of_le_length hle]
        have hoffset : (done ++ front).length
            - (padOf item.modality).length + replacement.length
            = (done ++ front.take i ++ replacement
              ++ front.drop (i + (padOf item.modality).length)).length := by
          simp only [length_append, length_take, length_drop]
          omega
        rw [hoffset, hloop]
        simp only [append_assoc]
    · -- The placeholder is behind the cut, and so are all others.
      obtain ⟨k, rfl⟩ := Nat.exists_eq_add_of_le (Nat.not_lt.mp hi)
      have hplain : ∀ j, ∀ m, ¬ OccursAt (padOf m) front j := by
        intro j m hm
        have hle := hm.length_le (padOf_framed m).ne_nil
        have hpos' := length_pos_iff.mpr (padOf_framed m).ne_nil
        exact hfirst j (by omega) m (hm.append (padOf_framed m).ne_nil back)
      have hbackPad : nextPad item.modality back = some k :=
        nextPad_some.mpr ⟨(occursAt_behind k).mp hocc, fun j hj m hm =>
          hfirst (front.length + j) (by omega) m ((occursAt_behind j).mpr hm)⟩
      have htake : (front ++ back).take (front.length + k)
          = front ++ back.take k := by
        rw [take_append, take_of_length_le (by omega), Nat.add_sub_cancel_left]
      have hdrop : (front ++ back).drop
          (front.length + k + (padOf item.modality).length)
          = back.drop (k + (padOf item.modality).length) := by
        rw [Nat.add_assoc, drop_append,
          drop_of_length_le (by omega), Nat.add_sub_cancel_left,
          nil_append]
      rw [hdrop] at hmore
      rw [htake] at hout
      refine ⟨[], item :: items, front, back.take k ++ replacement ++ more,
        rfl, expandRest_nil.mpr ⟨rfl, hplain⟩, ?_, ?_, ?_⟩
      · exact expandRest_cons.mpr ⟨k, replacement, more, hbackPad,
          hreplacement, hmore, rfl⟩
      · rw [hout]
        simp only [append_assoc]
      · refine expandFrom_keeps (item :: items) done _ out ?_ h
        intro j m hm
        show (done ++ front).length ≤ _
        rw [length_append]
        by_cases hj : j < front.length
        · exact absurd ((occursAt_apart hapart hj).mp hm) (hplain j m)
        · omega

/-- What the loop returns is the expansion, whatever it does with the
checkpoint. -/
theorem expandRest_of_expandFrom :
    ∀ (items : List VisionItem) (done rest : Bytes)
      (checkpoint : Option RewriteCheckpointByteSpec) (r : RenderedChat),
      expandFrom items done.length ⟨done ++ rest, checkpoint⟩ = .ok r →
      ∃ out, expandRest items rest = .ok out ∧ r.text = done ++ out := by
  intro items
  induction items with
  | nil =>
    intro done rest checkpoint r h
    rw [expandFrom, findFrom_done, findFrom_done] at h
    split at h
    · cases h
    · next hnone =>
      cases h
      rw [isSome_map, isSome_map] at hnone
      exact ⟨rest, by rw [expandRest, if_neg hnone], rfl⟩
  | cons item items ih =>
    intro done rest checkpoint r h
    cases hpad : nextPad item.modality rest with
    | none =>
      rw [expandFrom_turn, hpad] at h
      cases h
    | some i =>
      cases hreplacement : placeholder item with
      | error e =>
        rw [expandFrom_turn, hpad, hreplacement] at h
        cases h
      | ok replacement =>
        cases hrelocated : relocate checkpoint (done.length + i)
            (padOf item.modality).length replacement.length with
        | error e =>
          rw [expandFrom_turn, hpad] at h
          dsimp only [bind, Except.bind] at h
          rw [hreplacement] at h
          dsimp only at h
          rw [hrelocated] at h
          cases h
        | ok relocated =>
          rw [expandFrom_step hpad hreplacement hrelocated] at h
          obtain ⟨out, hout, htext⟩ := ih _ _ _ _ h
          refine ⟨_, expandRest_cons.mpr ⟨i, replacement, out, hpad,
            hreplacement, hout, rfl⟩, ?_⟩
          rw [htext]
          simp only [append_assoc]

/-- The expansion of a text that carries no checkpoint. -/
theorem expandFrom_of_expandRest :
    ∀ (items : List VisionItem) (done rest out : Bytes),
      expandRest items rest = .ok out →
      expandFrom items done.length ⟨done ++ rest, none⟩
        = .ok ⟨done ++ out, none⟩ := by
  intro items
  induction items with
  | nil => exact fun done rest out h => expandFrom_nil none h
  | cons item items ih =>
    intro done rest out h
    obtain ⟨i, replacement, more, hpad, hreplacement, hmore, rfl⟩ :=
      expandRest_cons.mp h
    rw [expandFrom_step hpad hreplacement rfl, ih _ _ more hmore]
    simp only [append_assoc]

end Ginfer.Frontend.Multimodal
