/-
Inline media decodes to what was encoded.

Four symbols put three bytes behind the output, whatever the accumulator
still holds of earlier ones (`push_group`), and the white space between
them is never seen (`decodeFrom_filter`). So a text of `b` decodes to `b`.
But the check in front counts the white space too: media within the limit
is refused where its text is spread over more bytes than the limit would
take without any (`acquire_data_exact_iff`).
-/
import Mathlib.Algebra.Order.Group.Nat
import Ginfer.Media.Acquire

namespace Ginfer.Media

open Ginfer.Lib List
open Ginfer.Frontend

-- ============ the encoding

/-- The standard alphabet. -/
def base64Alphabet (value : Nat) : UInt8 :=
  (ascii "ABCDEFGHIJKLMNOPQRSTUVWXYZabcdefghijklmnopqrstuvwxyz0123456789+/"
    ).getD value 0

/-- The base64 text of a byte string, with its padding. -/
def encodeBase64 : Bytes → Bytes
  | [] => []
  | [a] =>
    [base64Alphabet (a.toNat / 4), base64Alphabet (a.toNat % 4 * 16), 0x3d, 0x3d]
  | [a, b] =>
    [base64Alphabet (a.toNat / 4),
      base64Alphabet (a.toNat % 4 * 16 + b.toNat / 16),
      base64Alphabet (b.toNat % 16 * 4), 0x3d]
  | a :: b :: c :: rest =>
    base64Alphabet (a.toNat / 4)
      :: base64Alphabet (a.toNat % 4 * 16 + b.toNat / 16)
      :: base64Alphabet (b.toNat % 16 * 4 + c.toNat / 64)
      :: base64Alphabet (c.toNat % 64) :: encodeBase64 rest

/-- A symbol of the alphabet is in the table, and nothing else. -/
theorem base64Alphabet_mem {value : Nat} (h : value < 64) :
    base64Table (base64Alphabet value) = some value ∧ base64Alphabet value ≠ 0x3d
      ∧ isSkipped (base64Alphabet value) = false := by
  have hall : ∀ v : Fin 64, base64Table (base64Alphabet v) = some v.val
      ∧ base64Alphabet v ≠ 0x3d
      ∧ isSkipped (base64Alphabet v) = false := by decide +kernel
  exact hall ⟨value, h⟩

-- ============ the decoder

/-- White space is not seen. -/
theorem decodeFrom_filter (text : Bytes) :
    ∀ d : Decoder, decodeFrom d (text.filter (!isSkipped ·))
      = decodeFrom d text := by
  induction text with
  | nil => exact fun _ => rfl
  | cons c rest ih =>
    intro d
    by_cases hskip : isSkipped c = true
    · have hpad : c ≠ 0x3d := by
        rintro rfl
        exact absurd hskip (by decide)
      rw [filter_cons_of_neg (by simp [hskip]), decodeFrom,
        if_neg hpad, if_pos hskip]
      exact ih d
    · rw [filter_cons_of_pos (by simp [hskip]), decodeFrom,
        decodeFrom, if_neg hskip]
      by_cases hpad : c = 0x3d
      · rw [if_pos hpad, if_pos hpad]
        exact ih _
      · rw [if_neg hpad, if_neg hpad, if_neg hskip]
        split
        · rfl
        · exact ih _

/-- The accumulator after six more bits. -/
theorem shifted_bits {bits value : Nat} (hvalue : value < 64) :
    (bits <<< 6) % 2 ^ 32 ||| value = bits * 64 % 2 ^ 32 + value := by
  have hshift : (bits <<< 6) % 2 ^ 32 = (bits % 2 ^ 26) <<< 6 := by
    rw [Nat.shiftLeft_eq, Nat.shiftLeft_eq]
    omega
  have hmul : bits * 64 % 2 ^ 32 = (bits % 2 ^ 26) <<< 6 := by
    rw [Nat.shiftLeft_eq]
    omega
  rw [hshift, hmul]
  exact (Nat.shiftLeft_add_eq_or_of_lt hvalue _).symm

variable {out : Bytes} {bits count value : Nat}

/-- Too few bits for a byte. -/
theorem push_short (hvalue : value < 64) :
    (⟨out, bits, 0, false⟩ : Decoder).push value
      = ⟨out, bits * 64 % 2 ^ 32 + value, 6, false⟩ := by
  unfold Decoder.push
  dsimp only
  rw [if_neg (by decide), shifted_bits hvalue]

/-- A byte, of which `count` bits stay behind. -/
theorem push_byte (hvalue : value < 64) (a : UInt8)
    (ha : (bits * 64 % 2 ^ 32 + value) / 2 ^ count % 256 = a.toNat) :
    (⟨out, bits, count + 2, false⟩ : Decoder).push value
      = ⟨out ++ [a], bits * 64 % 2 ^ 32 + value, count, false⟩ := by
  have hmask : ∀ n : Nat, n &&& 0xff = n % 256 :=
    fun n => Nat.and_two_pow_sub_one_eq_mod n 8
  have hlow : count + 2 + 6 - 8 = count := by omega
  unfold Decoder.push
  dsimp only
  rw [if_pos (by omega), shifted_bits hvalue, hlow,
    Nat.shiftRight_eq_div_pow, hmask, ha, UInt8.ofNat_toNat]

/-- The first two symbols of a group. -/
theorem push_two (a : UInt8) {low : Nat} (hlow : low < 16) :
    ∃ bits', ((⟨out, bits, 0, false⟩ : Decoder).push (a.toNat / 4)).push
        (a.toNat % 4 * 16 + low) = ⟨out ++ [a], bits', 4, false⟩
      ∧ bits' % 16 = low := by
  have ha := a.toNat_lt
  rw [push_short (by omega)]
  exact ⟨_, push_byte (by omega) a (by omega), by omega⟩

/-- The third. -/
theorem push_three (b : UInt8) {low : Nat} (hlow : low < 4)
    (hbits : bits % 16 = b.toNat / 16) :
    ∃ bits', (⟨out, bits, 4, false⟩ : Decoder).push
        (b.toNat % 16 * 4 + low) = ⟨out ++ [b], bits', 2, false⟩
      ∧ bits' % 4 = low := by
  have hb := b.toNat_lt
  exact ⟨_, push_byte (by omega) b (by omega), by omega⟩

/-- The fourth. -/
theorem push_four (c : UInt8) (hbits : bits % 4 = c.toNat / 64) :
    ∃ bits', (⟨out, bits, 2, false⟩ : Decoder).push (c.toNat % 64)
      = ⟨out ++ [c], bits', 0, false⟩ := by
  have hc := c.toNat_lt
  exact ⟨_, push_byte (by omega) c (by omega)⟩

/-- A symbol is pushed. -/
theorem decodeFrom_symbol {d : Decoder} (hd : d.padded = false)
    (hvalue : value < 64) (rest : Bytes) :
    decodeFrom d (base64Alphabet value :: rest)
      = decodeFrom (d.push value) rest := by
  obtain ⟨htable, hpad, hskip⟩ := base64Alphabet_mem hvalue
  rw [decodeFrom, if_neg hpad, if_neg (by rw [hskip]; exact Bool.false_ne_true),
    hd, if_neg Bool.false_ne_true, htable]

theorem push_padded (d : Decoder) (value : Nat) :
    (d.push value).padded = d.padded := by
  unfold Decoder.push
  dsimp only
  split
  · rfl
  · rfl

/-- The text of `b` decodes to `b`, behind what is decoded already. -/
theorem decodeFrom_encode (b : Bytes) :
    ∀ (out : Bytes) (bits : Nat),
      decodeFrom ⟨out, bits, 0, false⟩ (encodeBase64 b) = .ok (out ++ b) := by
  induction b using encodeBase64.induct with
  | case1 =>
    intro out bits
    rw [append_nil]
    rfl
  | case2 a =>
    intro out bits
    have ha := a.toNat_lt
    obtain ⟨bits', hpush, -⟩ := @push_two out bits a 0 (by decide)
    rw [Nat.add_zero] at hpush
    rw [encodeBase64, decodeFrom_symbol rfl (by omega),
      decodeFrom_symbol (push_padded _ _) (by omega), hpush]
    rfl
  | case3 a b =>
    intro out bits
    have ha := a.toNat_lt
    have hb := b.toNat_lt
    obtain ⟨bits₁, htwo, hlow⟩ :=
      @push_two out bits a (b.toNat / 16) (by omega)
    obtain ⟨bits₂, hthree, -⟩ :=
      @push_three (out ++ [a]) bits₁ b 0 (by decide) hlow
    rw [Nat.add_zero] at hthree
    rw [encodeBase64, decodeFrom_symbol rfl (by omega),
      decodeFrom_symbol (push_padded _ _) (by omega), htwo,
      decodeFrom_symbol rfl (by omega), hthree, append_assoc]
    rfl
  | case4 a b c rest ih =>
    intro out bits
    have ha := a.toNat_lt
    have hb := b.toNat_lt
    have hc := c.toNat_lt
    obtain ⟨bits₁, htwo, hlow⟩ :=
      @push_two out bits a (b.toNat / 16) (by omega)
    obtain ⟨bits₂, hthree, hlow⟩ :=
      @push_three (out ++ [a]) bits₁ b (c.toNat / 64) (by omega) hlow
    obtain ⟨bits₃, hfour⟩ := @push_four (out ++ [a] ++ [b]) bits₂ c hlow
    rw [encodeBase64, decodeFrom_symbol rfl (by omega),
      decodeFrom_symbol (push_padded _ _) (by omega), htwo,
      decodeFrom_symbol rfl (by omega), hthree,
      decodeFrom_symbol rfl (by omega), hfour, ih, append_assoc,
      append_assoc, append_assoc]
    rfl

/-- Any text of `b`, white space included. -/
theorem decodeBase64_text {text b : Bytes}
    (h : text.filter (!isSkipped ·) = encodeBase64 b) :
    decodeBase64 text = .ok b := by
  unfold decodeBase64
  rw [← decodeFrom_filter, h]
  exact decodeFrom_encode b [] 0

-- ============ the sizes

/-- Symbols of the alphabet in a text. -/
def symbolCount (text : Bytes) : Nat :=
  text.countP fun c => (base64Table c).isSome

theorem symbolCount_skip {c : UInt8} {rest : Bytes} (h : base64Table c = none) :
    symbolCount (c :: rest) = symbolCount rest := by
  unfold symbolCount
  rw [countP_cons_of_neg (by rw [h]; exact Bool.false_ne_true)]

theorem base64Table_skipped {c : UInt8} (h : isSkipped c = true) :
    base64Table c = none := by
  unfold isSkipped at h
  simp only [Bool.or_eq_true, beq_iff_eq] at h
  rcases h with ((rfl | rfl) | rfl) | rfl <;> decide

/-- Six more bits, with what they put out. -/
theorem push_length (d : Decoder) (value : Nat) (hcount : d.count < 8) :
    (d.push value).count < 8
      ∧ 8 * (d.push value).out.length + (d.push value).count
        = 8 * d.out.length + d.count + 6 := by
  unfold Decoder.push
  dsimp only
  split
  · dsimp only
    rw [length_append, length_singleton]
    omega
  · dsimp only
    omega

/-- Bits go in by six and come out by eight. -/
theorem decodeFrom_length {text : Bytes} :
    ∀ {d : Decoder} {bytes : Bytes}, d.count < 8 →
      decodeFrom d text = .ok bytes → bytes.length
        = (8 * d.out.length + d.count + 6 * symbolCount text) / 8 := by
  induction text with
  | nil =>
    intro d bytes hcount h
    rw [decodeFrom] at h
    split at h
    · cases h
    · cases h
      unfold symbolCount
      rw [countP_nil]
      omega
  | cons c rest ih =>
    intro d bytes hcount h
    rw [decodeFrom] at h
    by_cases hpad : c = 0x3d
    · rw [if_pos hpad] at h
      rw [symbolCount_skip (by subst hpad; decide)]
      exact @ih { d with padded := true } bytes hcount h
    · rw [if_neg hpad] at h
      by_cases hskip : isSkipped c = true
      · rw [if_pos hskip] at h
        rw [symbolCount_skip (base64Table_skipped hskip)]
        exact ih hcount h
      · rw [if_neg hskip] at h
        split at h
        · cases h
        · next value hvalue =>
          have htable : base64Table c = some value := by
            split at hvalue
            · cases hvalue
            · exact hvalue
          obtain ⟨hcount', htotal⟩ := push_length d value hcount
          have hcounted : symbolCount (c :: rest) = symbolCount rest + 1 := by
            unfold symbolCount
            rw [countP_cons_of_pos (by rw [htable]; rfl)]
          rw [ih hcount' h, hcounted]
          omega

/-- What is accepted has no more bytes than its symbols have bits for. -/
theorem decodeBase64_length {text bytes : Bytes}
    (h : decodeBase64 text = .ok bytes) :
    bytes.length ≤ 6 * symbolCount text / 8 := by
  have hlength := decodeFrom_length (by decide) h
  change bytes.length = (8 * 0 + 0 + 6 * symbolCount text) / 8 at hlength
  omega

-- ============ acquiring

/-- A base64 data URI of a text. -/
def DataUri (value text : Bytes) : Prop :=
  ∃ header : Bytes, value = header ++ 0x2c :: text ∧ 0x2c ∉ header
    ∧ (ascii "data:").isPrefixOf header = true
    ∧ find header (ascii ";base64") ≠ none

/-- What is acquired is `b`, or it is over the limit and refused for
that. -/
def Exact (limit : Nat) (b : Bytes)
    (acquired : Except AcquireError Bytes) : Prop :=
  (b.length ≤ limit → acquired = .ok b)
    ∧ (limit < b.length →
      ∃ message, acquired = .error (.error .budgetExceeded message))

/-- The bytes of text the check in front lets pass. -/
def encodedLimit (policy : Policy) : Nat :=
  (policy.maxBytes / 3 + 1) * 4 % 2 ^ 64

theorem idxOf_comma {header text : Bytes} (h : (0x2c : UInt8) ∉ header) :
    (header ++ 0x2c :: text).idxOf? 0x2c = some header.length := by
  rw [List.idxOf?_eq_some_iff]
  refine ⟨by rw [length_append, length_cons]; omega, ?_, ?_⟩
  · rw [getElem_append_right (Nat.le_refl _)]
    simp
  · intro j hj heq
    rw [getElem_append_left hj] at heq
    exact h (heq ▸ getElem_mem hj)

/-- Uninterrupted, the branch decodes the text, between its two checks. -/
theorem acquireData_eq {value text b : Bytes} {policy : Policy}
    (huri : DataUri value text)
    (htext : text.filter (!isSkipped ·) = encodeBase64 b) (hb : b ≠ [])
    (hcancel : ∀ look, policy.isCancelled look = false)
    (hdeadline : ∀ look, policy.deadlinePassed look = false) :
    acquireData value policy
      = if encodedLimit policy < text.length ∨ policy.maxBytes < b.length
        then .error (.error .budgetExceeded "media data exceeds byte limit")
        else .ok b := by
  obtain ⟨header, rfl, hcomma, hdata, hbase64⟩ := huri
  have hcontrol : checkControl policy 1 = .ok () := by
    unfold checkControl
    rw [hcancel, hdeadline, if_neg Bool.false_ne_true, if_neg Bool.false_ne_true]
  have hfront : (ascii "data:").isPrefixOf (header ++ 0x2c :: text)
      = true := by
    rw [ isPrefixOf_iff_prefix] at hdata ⊢
    exact hdata.trans (prefix_append _ _)
  have htake : (header ++ 0x2c :: text).take header.length = header :=
    take_left
  have hdrop : (header ++ 0x2c :: text).drop (header.length + 1) = text := by
    rw [drop_append, drop_eq_nil_of_le (by omega), Nat.add_sub_cancel_left]
    rfl
  have hfound : (find header (ascii ";base64")).isNone = false := by
    rw [← Bool.not_eq_true, Option.isNone_iff_eq_none]
    exact hbase64
  have hlength : (header ++ 0x2c :: text).length - header.length - 1
      = text.length := by
    rw [length_append, length_cons]
    omega
  unfold acquireData
  rw [idxOf_comma hcomma]
  dsimp only
  rw [hfront, htake, hfound, hdrop, hlength, decodeBase64_text htext,
    if_neg (by decide)]
  change (if encodedLimit policy < text.length then _ else _) = _
  by_cases hlong : encodedLimit policy < text.length
  · rw [if_pos hlong, if_pos (Or.inl hlong)]
  · rw [if_neg hlong, ok_bind, hcontrol, ok_bind]
    by_cases hover : policy.maxBytes < b.length
    · rw [if_pos hover, if_pos (Or.inr hover)]
      rfl
    · rw [if_neg hover, if_neg hb, if_neg (not_or.mpr ⟨hlong, hover⟩)]
      rfl

/-- Inline media is acquired exactly, up to its limit, where the text is
no longer than the check in front allows, or the media is over the limit
itself; and no text that is accepted has more bytes than its symbols. -/
theorem acquire_data_exact_iff
    (fetchUrl readPath : Source → Policy → Except AcquireError Bytes)
    (source : Source) (policy : Policy) (b text : Bytes)
    (hsource : source.kind = .data) (huri : DataUri source.value text)
    (htext : text.filter (!isSkipped ·) = encodeBase64 b) (hb : b ≠ [])
    (hlimit : 0 < policy.maxBytes)
    (hcancel : ∀ look, policy.isCancelled look = false)
    (hdeadline : ∀ look, policy.deadlinePassed look = false) :
    (Exact policy.maxBytes b (acquireBytes fetchUrl readPath source policy)
        ↔ policy.maxBytes < b.length ∨ text.length ≤ encodedLimit policy)
      ∧ ∀ accepted bytes, decodeBase64 accepted = .ok bytes →
        bytes.length ≤ 6 * symbolCount accepted / 8 := by
  refine ⟨?_, fun accepted bytes h => decodeBase64_length h⟩
  have hcontrol : checkControl policy 0 = .ok () := by
    unfold checkControl
    rw [hcancel, hdeadline, if_neg Bool.false_ne_true, if_neg Bool.false_ne_true]
  have hvalue : source.value ≠ [] := by
    obtain ⟨header, heq, -⟩ := huri
    rw [heq]
    simp
  have hacquire : acquireBytes fetchUrl readPath source policy
      = if encodedLimit policy < text.length ∨ policy.maxBytes < b.length
        then .error (.error .budgetExceeded "media data exceeds byte limit")
        else .ok b := by
    unfold acquireBytes
    dsimp only
    rw [if_neg (by omega), hcontrol, ok_bind, hsource]
    dsimp only
    rw [if_neg hvalue]
    exact acquireData_eq huri htext hb hcancel hdeadline
  rw [hacquire]
  unfold Exact
  by_cases hover : policy.maxBytes < b.length
  · rw [if_pos (Or.inr hover)]
    exact ⟨fun _ => Or.inl hover,
      fun _ => ⟨fun hle => by omega, fun _ => ⟨_, rfl⟩⟩⟩
  · by_cases hlong : encodedLimit policy < text.length
    · rw [if_pos (Or.inl hlong)]
      constructor
      · intro h
        exact nomatch h.1 (by omega)
      · rintro (h | h)
        · exact absurd h hover
        · omega
    · rw [if_neg (not_or.mpr ⟨hlong, hover⟩)]
      exact ⟨fun _ => Or.inr (by omega),
        fun _ => ⟨fun _ => rfl, fun h => absurd h hover⟩⟩

/-- A source of one byte, inline, with a line end behind its text. -/
def lineEnded : Source where
  kind := .data
  value := ascii "data:image/png;base64,AA==" ++ [0x0a]
  bytes := []

/-- Within a limit of three bytes it is acquired. -/
theorem acquire_data_exact_lineEnded :
    Exact 3 [0] (acquireBytes (fun _ _ => .ok []) (fun _ _ => .ok [])
      lineEnded { maxBytes := 3 }) :=
  (acquire_data_exact_iff (fun _ _ => .ok []) (fun _ _ => .ok []) lineEnded
    { maxBytes := 3 } [0] (ascii "AA==" ++ [0x0a]) rfl
    ⟨ascii "data:image/png;base64", by decide +kernel, by decide +kernel,
      by decide +kernel, by decide +kernel⟩
    (by decide +kernel) (by decide) (by decide) (fun _ => rfl)
    fun _ => rfl).1.mpr (Or.inr (by decide +kernel))

/-- Within a limit of one byte, which it is, it is refused: its text takes
five bytes, and without the line end it takes the four that are let
pass. -/
theorem acquire_data_lineEnded_refused :
    ¬ ∀ (fetchUrl readPath : Source → Policy → Except AcquireError Bytes)
        (source : Source) (policy : Policy) (b text : Bytes),
        source.kind = .data → DataUri source.value text →
          text.filter (!isSkipped ·) = encodeBase64 b → b ≠ [] →
            0 < policy.maxBytes →
              (∀ look, policy.isCancelled look = false) →
                (∀ look, policy.deadlinePassed look = false) →
                  Exact policy.maxBytes b
                    (acquireBytes fetchUrl readPath source policy) := by
  intro hall
  have hexact := hall (fun _ _ => .ok []) (fun _ _ => .ok []) lineEnded
    { maxBytes := 1 } [0] (ascii "AA==" ++ [0x0a]) rfl
    ⟨ascii "data:image/png;base64", by decide +kernel, by decide +kernel,
      by decide +kernel, by decide +kernel⟩
    (by decide +kernel) (by decide) (by decide) (fun _ => rfl) fun _ => rfl
  exact absurd (hexact.1 (by decide)) (by decide +kernel)

end Ginfer.Media
