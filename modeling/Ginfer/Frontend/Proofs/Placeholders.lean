/-
The expanded text has the pads of its media, in order.

Both pads open with `<` and close with `>` and have neither inside, and
so does every replacement (`placeholder_spec`). So the pads of an
expanded text are those of its replacements one after the other
(`expandFrom_pads`): what stands before a placeholder has none, since the
search would have found it, and none comes about where texts meet.
-/
import Ginfer.Lib.Framed
import Ginfer.Frontend.Processor
import Ginfer.Frontend.Proofs.Search

namespace Ginfer.Frontend.Multimodal

open Ginfer.Lib List Option
open Ginfer.Frontend.ChatTemplate
open Ginfer.Qwen (PromptModality VisionItem)

-- ============ the pads

theorem padOf_framed (m : PromptModality) : Framed 0x3c 0x3e (padOf m) := by
  cases m with
  | image => exact ⟨by decide, by decide, by decide, by decide, by decide⟩
  | video => exact ⟨by decide, by decide, by decide, by decide, by decide⟩

/-- The pad at the front of a text. -/
def padAt (text : Bytes) : Option PromptModality :=
  if (padOf .image).isPrefixOf text then some .image
  else if (padOf .video).isPrefixOf text then some .video
  else none

/-- The pads of a text, in order. -/
def padsOf (text : Bytes) : List PromptModality := scan padAt text

/-- The front of a text is its own where no pad reaches over its end. -/
theorem padAt_append {front back : Bytes}
    (h : ∀ m, padOf m <+: front ++ back ↔ padOf m <+: front) :
    padAt (front ++ back) = padAt front := by
  have hsame : ∀ m, (padOf m).isPrefixOf (front ++ back)
      = (padOf m).isPrefixOf front := by
    intro m
    rw [Bool.eq_iff_iff, isPrefixOf_iff_prefix, isPrefixOf_iff_prefix]
    exact h m
  unfold padAt
  rw [hsame, hsame]

/-- A cut before a `<`. -/
theorem padsOf_append_opens (front : Bytes) {back : Bytes} (h : Opens 0x3c back) :
    padsOf (front ++ back) = padsOf front ++ padsOf back :=
  scan_append fun _ hne _ => padAt_append fun m =>
    (padOf_framed m).prefix_append_of_opens hne h

/-- A cut behind a `>`. -/
theorem padsOf_append_closed {front : Bytes} (h : Closed 0x3e front)
    (back : Bytes) :
    padsOf (front ++ back) = padsOf front ++ padsOf back := by
  refine scan_append fun part hne hpart => padAt_append fun m =>
    (padOf_framed m).prefix_append_of_closed hne ?_
  rcases h with hnil | hlast
  · rw [hnil] at hpart
    exact absurd (suffix_nil.mp hpart) hne
  · obtain ⟨before, hbefore⟩ := hpart
    rw [← hbefore, List.getLast?_append_of_ne_nil _ hne] at hlast
    exact Or.inr hlast

variable {text : Bytes}

theorem padAt_eq_none : padAt text = none ↔ ∀ m, ¬ padOf m <+: text := by
  unfold padAt
  constructor
  · intro h m hpre
    rw [← isPrefixOf_iff_prefix] at hpre
    cases m with
    | image =>
      rw [if_pos hpre] at h
      cases h
    | video =>
      rw [if_pos hpre] at h
      split at h <;> cases h
  · intro h
    rw [if_neg fun hpre => h .image ( isPrefixOf_iff_prefix.mp hpre),
      if_neg fun hpre => h .video ( isPrefixOf_iff_prefix.mp hpre)]

variable {m : PromptModality}

/-- A text begins with one pad at most. -/
theorem padAt_of_prefix (h : padOf m <+: text) : padAt text = some m := by
  unfold padAt
  cases m with
  | image => rw [if_pos ( isPrefixOf_iff_prefix.mpr h)]
  | video =>
    rw [if_neg, if_pos ( isPrefixOf_iff_prefix.mpr h)]
    intro himage
    have hboth := prefix_of_prefix_length_le
      ( isPrefixOf_iff_prefix.mp himage) h (by decide)
    exact absurd hboth (by decide)

/-- A text without pads. -/
theorem padsOf_eq_nil
    (h : ∀ m i, ¬ OccursAt (padOf m) text i) : padsOf text = [] := by
  refine scan_eq_nil fun part hne hpart => padAt_eq_none.mpr fun m hm => ?_
  obtain ⟨before, hbefore⟩ := hpart
  refine h m before.length ?_
  unfold OccursAt
  rw [← hbefore, drop_left' rfl]
  exact hm

/-- A text without a `<` has no pad. -/
theorem padsOf_no_open (h : (0x3c : UInt8) ∉ text) : padsOf text = [] := by
  refine padsOf_eq_nil fun m i hocc => h ?_
  have hmem : (0x3c : UInt8) ∈ padOf m :=
    mem_of_head? (padOf_framed m).opens
  exact mem_of_mem_drop (hocc.subset hmem)

theorem padsOf_pad (m : PromptModality) : padsOf (padOf m) = [m] := by
  cases m with
  | image => decide
  | video => decide

/-- Repeated pads. -/
theorem padsOf_replicate (m : PromptModality) (n : Nat) :
    padsOf (List.replicate n (padOf m)).flatten = List.replicate n m := by
  induction n with
  | zero => rfl
  | succ n ih =>
    rw [replicate_succ, flatten_cons,
      padsOf_append_closed (Or.inr (padOf_framed m).closes), ih,
      padsOf_pad]
    rfl

-- ============ the replacements

variable {out : Bytes}

theorem repeatText_ok {value : Bytes} {count : Nat}
    (h : repeatText value count = .ok out) :
    out = (List.replicate count value).flatten := by
  unfold repeatText at h
  split at h
  · cases h
  · exact (Except.ok.inj h).symm

/-- Repeated at least once, a text begins and ends as it does. -/
theorem replicate_ends {value : Bytes} (hne : value ≠ []) (n : Nat) :
    (List.replicate (n + 1) value).flatten.head? = value.head?
      ∧ (List.replicate (n + 1) value).flatten.getLast? = value.getLast? := by
  constructor
  · rw [replicate_succ, flatten_cons, List.head?_append_of_ne_nil _ hne]
  · rw [replicate_succ', flatten_concat, List.getLast?_append_of_ne_nil _ hne]

/-- A digit is neither `<` nor `|`. -/
theorem digits_plain (n : Nat) :
    ∀ b ∈ ascii (toString n), b ≠ 0x3c ∧ b ≠ 0x7c := by
  intro b hb
  unfold ascii at hb
  obtain ⟨c, hc, rfl⟩ := mem_map.mp hb
  rw [Nat.toString_eq_repr, Nat.toList_repr] at hc
  have hdigit := Char.isDigit_iff_toNat.mp
    (Nat.isDigit_of_mem_toDigits (by decide) (by decide) hc)
  have hlow : 48 ≤ c.toNat := hdigit.1
  have hhigh : c.toNat ≤ 57 := hdigit.2
  have hbyte : (UInt8.ofNat c.toNat).toNat = c.toNat := by
    rw [UInt8.toNat_ofNat']
    omega
  constructor
  · intro heq
    have hvalue := congrArg UInt8.toNat heq
    rw [hbyte] at hvalue
    simp at hvalue
    omega
  · intro heq
    have hvalue := congrArg UInt8.toNat heq
    rw [hbyte] at hvalue
    simp at hvalue
    omega

/-- Neither is in a printed timestamp. -/
theorem fixedTenth_plain (x : Rat) :
    ∀ b ∈ fixedTenth x, b ≠ 0x3c ∧ b ≠ 0x7c := by
  intro b hb
  unfold fixedTenth at hb
  simp only [mem_append] at hb
  rcases hb with ((hb | hb) | hb) | hb
  · split at hb
    · obtain rfl := mem_singleton.mp hb
      decide
    · exact absurd hb not_mem_nil
  · exact digits_plain _ b hb
  · obtain rfl := mem_singleton.mp hb
    decide
  · exact digits_plain _ b hb

/-- The heading of a frame has no pad: it opens as one, but no digit is
a bar. -/
theorem padsOf_heading (x : Rat) :
    padsOf (ascii "<" ++ fixedTenth x ++ ascii " seconds>") = [] := by
  have hplain : ∀ b ∈ fixedTenth x ++ ascii " seconds>",
      b ≠ 0x3c ∧ b ≠ 0x7c := by
    intro b hb
    rcases mem_append.mp hb with hb | hb
    · exact fixedTenth_plain x b hb
    · exact (by decide +kernel : ∀ b ∈ ascii " seconds>",
        b ≠ 0x3c ∧ b ≠ 0x7c) b hb
  have hrest : padsOf (fixedTenth x ++ ascii " seconds>") = [] :=
    padsOf_no_open fun hmem => (hplain _ hmem).1 rfl
  have hhead : padAt (0x3c :: (fixedTenth x ++ ascii " seconds>"))
      = none := by
    rw [padAt_eq_none]
    intro m hm
    have hbar : (0x7c : UInt8) ∈ (fixedTenth x ++ ascii " seconds>") := by
      have hcons : padOf m = 0x3c :: (padOf m).tail := by
        cases m <;> rfl
      rw [hcons] at hm
      refine (cons_prefix_cons.mp hm).2.subset ?_
      cases m <;> decide
    exact (hplain _ hbar).2 rfl
  rw [append_assoc]
  show padsOf (0x3c :: (fixedTenth x ++ ascii " seconds>")) = []
  unfold padsOf at hrest ⊢
  rw [scan, hhead, hrest]
  rfl

/-- What a replacement is: it begins with a `<`, ends with a `>`, and has
these pads. -/
structure Replaces (m : PromptModality) (count : Nat) (out : Bytes) :
    Prop where
  opens : out.head? = some 0x3c
  closes : out.getLast? = some 0x3e
  pads : padsOf out = List.replicate count m

theorem replaces_repeat {count : Nat}
    (hpos : 0 < count) (h : repeatText (padOf m) count = .ok out) :
    Replaces m count out := by
  have hframed := padOf_framed m
  obtain ⟨n, rfl⟩ : ∃ n, count = n + 1 := ⟨count - 1, by omega⟩
  obtain ⟨hhead, hlast⟩ := replicate_ends hframed.ne_nil n
  rw [repeatText_ok h]
  exact ⟨hhead.trans hframed.opens, hlast.trans hframed.closes,
    padsOf_replicate m (n + 1)⟩

/-- Texts that close and open are put together. -/
theorem Replaces.append {a b : Nat} {x y : Bytes}
    (hx : Replaces m a x) (hy : Replaces m b y) :
    Replaces m (a + b) (x ++ y) := by
  have hxne : x ≠ [] := by
    rintro rfl
    cases hx.opens
  have hyne : y ≠ [] := by
    rintro rfl
    cases hy.opens
  refine ⟨?_, ?_, ?_⟩
  · rw [List.head?_append_of_ne_nil _ hxne, hx.opens]
  · rw [List.getLast?_append_of_ne_nil _ hyne, hy.closes]
  · rw [padsOf_append_opens x (Or.inr hy.opens), hx.pads, hy.pads,
      replicate_append_replicate]

/-- One frame of a video. -/
theorem replaces_frame {tokens : Nat} {pads : Bytes} (timestamp : Rat)
    (hpos : 0 < tokens) (h : repeatText videoPad tokens = .ok pads) :
    Replaces .video tokens (ascii "<" ++ fixedTenth timestamp
      ++ ascii " seconds>" ++ visionStart ++ pads ++ visionEnd) := by
  have hpads := replaces_repeat (m := .video) hpos h
  have hstart : Replaces .video 0 visionStart :=
    ⟨by decide, by decide, by decide⟩
  have hend : Replaces .video 0 visionEnd :=
    ⟨by decide, by decide, by decide⟩
  have hheading : Replaces .video 0
      (ascii "<" ++ fixedTenth timestamp ++ ascii " seconds>") := by
    refine ⟨rfl, ?_, padsOf_heading timestamp⟩
    rw [List.getLast?_append_of_ne_nil _ (by decide)]
    decide
  have hall := ((hheading.append hstart).append hpads).append hend
  rw [Nat.add_zero, Nat.add_zero, Nat.zero_add] at hall
  exact hall

theorem replaces_video {tokens : Nat} (hpos : 0 < tokens) :
    ∀ (timestamps : List Rat) (out : Bytes), timestamps ≠ [] →
      videoPlaceholder tokens timestamps = .ok out →
      Replaces .video (timestamps.length * tokens) out := by
  intro timestamps
  induction timestamps with
  | nil => exact fun out hne _ => absurd rfl hne
  | cons timestamp rest ih =>
    intro out _ h
    rw [videoPlaceholder] at h
    cases hpads : repeatText videoPad tokens with
    | error e =>
      rw [hpads] at h
      cases h
    | ok pads =>
      cases hmore : videoPlaceholder tokens rest with
      | error e =>
        rw [hpads, hmore] at h
        cases h
      | ok more =>
        rw [hpads, hmore] at h
        cases h
        have hframe := replaces_frame timestamp hpos hpads
        rw [length_cons, Nat.succ_mul, Nat.add_comm]
        cases rest with
        | nil =>
          cases hmore
          rw [append_nil]
          simpa using hframe
        | cons _ _ =>
          exact hframe.append (ih more (cons_ne_nil _ _) hmore)

/-- The pads of an item: those of its frames. -/
def itemPads (item : VisionItem) : Nat :=
  expectedSpans item * frameTokens item.grid

/-- An item with a place in the text: its frames have pads, and it has
frames. -/
def Placeable (item : VisionItem) : Prop :=
  0 < frameTokens item.grid ∧ 0 < expectedSpans item

theorem placeholder_spec {item : VisionItem}
    (hplace : Placeable item) (h : placeholder item = .ok out) :
    Replaces item.modality (itemPads item) out := by
  obtain ⟨hpos, hspans⟩ := hplace
  unfold placeholder at h
  unfold itemPads
  unfold expectedSpans at hspans ⊢
  cases hm : item.modality with
  | image =>
    rw [hm] at h
    dsimp only at h ⊢
    rw [Nat.one_mul]
    exact replaces_repeat hpos h
  | video =>
    rw [hm] at h hspans
    dsimp only at h hspans ⊢
    split at h
    · cases h
    · next hlength =>
      rw [not_not] at hlength
      have hne : item.timestamps ≠ [] := by
        intro hnil
        rw [hnil, length_nil] at hlength
        omega
      rw [← hlength]
      exact replaces_video hpos item.timestamps out hne h

-- ============ the expansion

variable {pattern : Bytes} {start : Nat}

theorem findFrom_some {position : Nat}
    (h : findFrom text pattern start = some position) :
    ∃ i, position = start + i ∧ OccursAt pattern (text.drop start) i
      ∧ ∀ j < i, ¬ OccursAt pattern (text.drop start) j := by
  unfold findFrom at h
  rw [map_eq_some_iff] at h
  obtain ⟨i, hi, rfl⟩ := h
  obtain ⟨hocc, hfirst⟩ := find_eq_some hi
  exact ⟨i, rfl, hocc, hfirst⟩

theorem findFrom_none
    (hne : pattern ≠ []) (h : findFrom text pattern start = none) :
    ∀ i, ¬ OccursAt pattern (text.drop start) i := by
  unfold findFrom at h
  rw [map_eq_none_iff] at h
  exact (find_eq_none hne).mp h

/-- A pattern that is not found earlier does not occur earlier. -/
theorem findFrom_not_before {i : Nat} (hne : pattern ≠ [])
    (h : ¬ (findFrom text pattern start).any (· < start + i) = true) :
    ∀ j < i, ¬ OccursAt pattern (text.drop start) j := by
  intro j hj hocc
  cases hfind : findFrom text pattern start with
  | none => exact findFrom_none hne hfind j hocc
  | some position =>
    obtain ⟨k, rfl, -, hfirst⟩ := findFrom_some hfind
    rw [hfind, any_some, decide_eq_true_iff] at h
    exact hfirst j (by omega) hocc

/-- One turn of the loop, over the text from `search` on: the placeholder
found, and that no pad stands before it. -/
theorem expandFrom_cons {item : VisionItem} {items : List VisionItem}
    {done rest : Bytes} {checkpoint : Option RewriteCheckpointByteSpec}
    {out : RenderedChat}
    (h : expandFrom (item :: items) done.length ⟨done ++ rest, checkpoint⟩
      = .ok out) :
    ∃ before after replacement relocated,
      rest = before ++ padOf item.modality ++ after ∧ padsOf before = []
        ∧ placeholder item = .ok replacement
        ∧ relocate checkpoint (done ++ before).length
        (padOf item.modality).length replacement.length = .ok relocated
        ∧ expandFrom items (done ++ before ++ replacement).length
            ⟨done ++ before ++ replacement ++ after, relocated⟩
          = .ok out := by
  rw [expandFrom] at h
  dsimp only at h
  cases hfind : findFrom (done ++ rest) (padOf item.modality)
      done.length with
  | none =>
    rw [hfind] at h
    cases h
  | some position =>
    rw [hfind] at h
    dsimp only at h
    obtain ⟨i, rfl, hocc, hfirst⟩ := findFrom_some hfind
    rw [drop_left' rfl] at hocc hfirst
    split at h
    · cases h
    · next hother =>
      cases hplaceholder : placeholder item with
      | error e =>
        rw [hplaceholder] at h
        cases h
      | ok replacement =>
        rw [hplaceholder] at h
        dsimp only [bind, Except.bind] at h
        cases hrelocate : relocate checkpoint (done.length + i)
            (padOf item.modality).length replacement.length with
        | error e =>
          rw [hrelocate] at h
          cases h
        | ok relocated =>
          rw [hrelocate] at h
          dsimp only at h
          have hle := hocc.length_le (padOf_framed _).ne_nil
          obtain ⟨after, hafter⟩ := hocc
          have hrest : rest = rest.take i ++ padOf item.modality
              ++ after := by
            rw [append_assoc, hafter, take_append_drop]
          have hlen : (rest.take i).length = i := by
            rw [length_take]
            omega
          have hbefore : (done ++ rest).take (done.length + i)
              = done ++ rest.take i := by
            rw [take_append, take_of_length_le (by omega),
              Nat.add_sub_cancel_left]
          have hbehind : (done ++ rest).drop
              (done.length + i + (padOf item.modality).length)
              = after := by
            rw [hrest, ← append_assoc]
            refine drop_left' ?_
            simp only [length_append, hlen]
            omega
          refine ⟨rest.take i, after, replacement, relocated, hrest,
            ?_, rfl, ?_, ?_⟩
          · -- The search found neither pad before the placeholder.
            refine padsOf_eq_nil fun m j hj => ?_
            have hjlt := hj.length_le (padOf_framed m).ne_nil
            rw [hlen] at hjlt
            have hpos := length_pos_iff.mpr (padOf_framed m).ne_nil
            have hrestocc : OccursAt (padOf m) rest j := by
              have happ := hj.append (padOf_framed m).ne_nil (rest.drop i)
              rw [take_append_drop] at happ
              exact happ
            have hno := findFrom_not_before
              (by cases item.modality <;> decide) hother
            rw [drop_left' rfl] at hno
            rcases (by cases m <;> cases item.modality <;> simp
                [padOf, otherPadOf] :
              padOf m = padOf item.modality
                ∨ padOf m = otherPadOf item.modality) with
              hsame | hother
            · rw [hsame] at hrestocc
              exact hfirst j (by omega) hrestocc
            · rw [hother] at hrestocc
              exact hno j (by omega) hrestocc
          · rw [length_append, hlen]
            exact hrelocate
          · rw [hbefore, hbehind] at h
            rw [length_append, length_append, hlen]
            exact h

/-- The pads behind `done` are those of the items that were left. -/
theorem expandFrom_pads :
    ∀ (items : List VisionItem) (done rest : Bytes)
      (checkpoint : Option RewriteCheckpointByteSpec) (out : RenderedChat),
      (∀ item ∈ items, Placeable item) →
      expandFrom items done.length ⟨done ++ rest, checkpoint⟩ = .ok out →
      ∃ written, out.text = done ++ written
        ∧ padsOf written = items.flatMap fun item =>
        List.replicate (itemPads item) item.modality := by
  intro items
  induction items with
  | nil =>
    intro done rest checkpoint out _ h
    rw [expandFrom] at h
    dsimp only at h
    split at h
    · cases h
    · next hnone =>
      cases h
      refine ⟨rest, rfl, padsOf_eq_nil fun m => ?_⟩
      rw [Bool.or_eq_true, not_or, Bool.not_eq_true,
        isSome_eq_false_iff, Bool.not_eq_true,
        isSome_eq_false_iff, isNone_iff_eq_none,
        isNone_iff_eq_none] at hnone
      have himage := findFrom_none (by decide) hnone.1
      have hvideo := findFrom_none (by decide) hnone.2
      rw [drop_left' rfl] at himage hvideo
      cases m with
      | image => exact himage
      | video => exact hvideo
  | cons item items ih =>
    intro done rest checkpoint out hplace h
    obtain ⟨hitem, hitems⟩ := forall_mem_cons.mp hplace
    obtain ⟨before, after, replacement, relocated, rfl, hbefore,
      hplaceholder, -, hnext⟩ := expandFrom_cons h
    obtain ⟨written, hout, hpads⟩ := ih _ _ _ _ hitems hnext
    have hspec := placeholder_spec hitem hplaceholder
    refine ⟨before ++ replacement ++ written, ?_, ?_⟩
    · rw [hout]
      simp only [append_assoc]
    · have hne : replacement ≠ [] := by
        rintro rfl
        cases hspec.opens
      rw [append_assoc, padsOf_append_opens before, hbefore,
        padsOf_append_closed (Or.inr hspec.closes), hspec.pads, hpads]
      · rfl
      · rw [Opens, List.head?_append_of_ne_nil _ hne]
        exact Or.inr hspec.opens

/-- The pads of an expanded text. -/
theorem expandPlaceholders_pads {rendered out : RenderedChat}
    {items : List VisionItem} (hplace : ∀ item ∈ items, Placeable item)
    (h : expandPlaceholders rendered items = .ok out) :
    padsOf out.text = items.flatMap fun item =>
      List.replicate (itemPads item) item.modality := by
  obtain ⟨written, hout, hpads⟩ :=
    expandFrom_pads items [] rendered.text rendered.rewriteCheckpoint out hplace h
  rw [hout, nil_append, hpads]

end Ginfer.Frontend.Multimodal
