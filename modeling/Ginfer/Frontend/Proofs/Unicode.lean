/-
Reading and writing characters are inverse to each other.

`utf8procIterate` reads exactly the encoded characters
(`iterate_encoded`, `encoded_of_iterate`), so `utf8Codepoints` returns on
a text exactly when it is well formed, and then with its characters
(`utf8Codepoints_encode`, `encode_of_utf8Codepoints`).
-/
import Ginfer.Frontend.Tokenizer
import Ginfer.Frontend.Proofs.Utf8

namespace Ginfer.Frontend

open Ginfer.Lib UInt8 List

-- ============ one character

theorem utfCont_ofNat (w : Nat) :
    utfCont (ofNat (w % 0x40 + 0x80)) = true
      ∧ (ofNat (w % 0x40 + 0x80)).toNat = w % 64 + 0x80 := by
  have hbyte : (ofNat (w % 0x40 + 0x80)).toNat = w % 64 + 0x80 := by
    rw [toNat_ofNat']
    omega
  refine ⟨?_, hbyte⟩
  unfold utfCont
  rw [hbyte, beq_iff_eq]
  omega

/-- The library reads back an encoded character. -/
theorem iterate_encoded (c : Char) (rest : Bytes) :
    ∃ lead tail, String.utf8EncodeChar c = lead :: tail
      ∧ utf8procIterate lead (tail ++ rest)
        = some ((String.utf8EncodeChar c).length, c.toNat) := by
  have hrange := scalar_range c
  have hvalue : c.toNat = c.val.toNat := rfl
  rw [hvalue]
  unfold String.utf8EncodeChar
  dsimp only
  generalize c.val.toNat = v at *
  split
  · next h1 =>
    refine ⟨_, _, rfl, ?_⟩
    have hlead : (ofNat v).toNat = v := by
      rw [toNat_ofNat']
      omega
    unfold utf8procIterate
    dsimp only
    rw [hlead, if_pos (by omega)]
    rfl
  split
  · next h1 h2 =>
    refine ⟨_, _, rfl, ?_⟩
    have hlead : (ofNat (v / 64 % 0x20 + 0xc0)).toNat = v / 64 + 0xc0 := by
      rw [toNat_ofNat']
      omega
    obtain ⟨hcont, hbyte⟩ := utfCont_ofNat v
    unfold utf8procIterate
    dsimp only
    rw [hlead, if_neg (by omega), if_neg (by omega), if_pos (by omega)]
    dsimp only [cons_append]
    rw [hcont, hbyte, if_neg (by decide)]
    refine congrArg (fun cp => some (2, cp)) ?_
    omega
  split
  · next h1 h2 h3 =>
    refine ⟨_, _, rfl, ?_⟩
    have hlead : (ofNat (v / 4096 % 0x10 + 0xe0)).toNat = v / 4096 + 0xe0 := by
      rw [toNat_ofNat']
      omega
    obtain ⟨hcont₁, hbyte₁⟩ := utfCont_ofNat (v / 64)
    obtain ⟨hcont₂, hbyte₂⟩ := utfCont_ofNat v
    unfold utf8procIterate
    dsimp only
    rw [hlead, if_neg (by omega), if_neg (by omega), if_neg (by omega),
      if_pos (by omega)]
    dsimp only [cons_append]
    rw [hcont₁, hcont₂, hbyte₁, hbyte₂, if_neg (by decide),
      if_neg (by omega), if_neg (by omega)]
    refine congrArg (fun cp => some (3, cp)) ?_
    omega
  · next h1 h2 h3 =>
    refine ⟨_, _, rfl, ?_⟩
    have hlead : (ofNat (v / 262144 % 0x08 + 0xf0)).toNat
        = v / 262144 + 0xf0 := by
      rw [toNat_ofNat']
      omega
    obtain ⟨hcont₁, hbyte₁⟩ := utfCont_ofNat (v / 4096)
    obtain ⟨hcont₂, hbyte₂⟩ := utfCont_ofNat (v / 64)
    obtain ⟨hcont₃, hbyte₃⟩ := utfCont_ofNat v
    unfold utf8procIterate
    dsimp only
    rw [hlead, if_neg (by omega), if_neg (by omega), if_neg (by omega),
      if_neg (by omega)]
    dsimp only [cons_append]
    rw [hcont₁, hcont₂, hcont₃, hbyte₁, hbyte₂, hbyte₃,
      if_neg (by decide), if_neg (by omega), if_neg (by omega)]
    refine congrArg (fun cp => some (4, cp)) ?_
    omega

/-- The library writes a character as its encoding. -/
theorem utf8procEncodeChar_eq (c : Char) :
    utf8procEncodeChar c.toNat = String.utf8EncodeChar c := by
  have hrange := scalar_range c
  have hvalue : c.toNat = c.val.toNat := rfl
  rw [hvalue]
  unfold String.utf8EncodeChar utf8procEncodeChar
  dsimp only
  generalize c.val.toNat = v at *
  by_cases h1 : v ≤ 0x7f
  · rw [if_pos h1, if_pos (by omega)]
  rw [if_neg h1, if_neg (by omega)]
  by_cases h2 : v ≤ 0x7ff
  · rw [if_pos h2, if_pos (by omega)]
    refine congrArg₂ cons (congrArg ofNat (by omega)) ?_
    exact congrArg₂ cons (congrArg ofNat (by omega)) rfl
  rw [if_neg h2, if_neg (by omega)]
  by_cases h3 : v ≤ 0xffff
  · rw [if_pos h3, if_pos (by omega)]
    refine congrArg₂ cons (congrArg ofNat (by omega)) ?_
    refine congrArg₂ cons (congrArg ofNat (by omega)) ?_
    exact congrArg₂ cons (congrArg ofNat (by omega)) rfl
  rw [if_neg h3, if_neg (by omega), if_pos (by omega)]
  refine congrArg₂ cons (congrArg ofNat (by omega)) ?_
  refine congrArg₂ cons (congrArg ofNat (by omega)) ?_
  refine congrArg₂ cons (congrArg ofNat (by omega)) ?_
  exact congrArg₂ cons (congrArg ofNat (by omega)) rfl

theorem utfCont_iff (b : UInt8) :
    utfCont b = true ↔ 0x80 ≤ b.toNat ∧ b.toNat ≤ 0xbf := by
  unfold utfCont
  rw [beq_iff_eq]
  omega

/-- A byte with a value is that value as a byte. -/
theorem byte_eq_ofNat {b : UInt8} {n : Nat} (h : b.toNat = n % 256) :
    b = UInt8.ofNat n := by
  rw [← UInt8.toNat_inj, UInt8.toNat_ofNat']
  exact h

/-- What the library reads is an encoded character. -/
theorem encoded_of_iterate {lead : UInt8} {rest : Bytes} {length codepoint : Nat}
    (h : utf8procIterate lead rest = some (length, codepoint)) :
    ∃ c more, lead :: rest = String.utf8EncodeChar c ++ more
      ∧ length = (String.utf8EncodeChar c).length
      ∧ codepoint = c.toNat := by
  -- A scalar value is a character's.
  have hchar : ∀ v : Nat, v.isValidChar → ∃ c : Char, c.val.toNat = v :=
    fun v hv => ⟨Char.ofNatAux v hv, rfl⟩
  have hlead := lead.toNat_lt
  unfold utf8procIterate at h
  dsimp only at h
  by_cases h1 : lead.toNat < 0x80
  · rw [if_pos h1] at h
    cases h
    obtain ⟨c, hc⟩ := hchar lead.toNat (Or.inl (by omega))
    have henc : String.utf8EncodeChar c = [lead] := by
      unfold String.utf8EncodeChar
      dsimp only
      rw [hc, if_pos (by omega), UInt8.ofNat_toNat]
    exact ⟨c, rest, by rw [henc]; rfl, by rw [henc]; rfl, hc.symm⟩
  rw [if_neg h1] at h
  by_cases h2 : lead.toNat < 0xc2 ∨ 0xf4 < lead.toNat
  · rw [if_pos h2] at h
    cases h
  rw [if_neg h2] at h
  by_cases h3 : lead.toNat < 0xe0
  · rw [if_pos h3] at h
    cases rest with
    | nil => cases h
    | cons b₁ rest =>
      dsimp only at h
      by_cases hcont : utfCont b₁ = true
      · rw [hcont, if_neg (by decide)] at h
        rw [utfCont_iff] at hcont
        cases h
        obtain ⟨c, hc⟩ := hchar (lead.toNat % 0x20 * 0x40 + b₁.toNat % 0x40)
          (Or.inl (by omega))
        have henc : String.utf8EncodeChar c = [lead, b₁] := by
          unfold String.utf8EncodeChar
          dsimp only
          rw [hc, if_neg (by omega), if_pos (by omega)]
          refine congrArg₂ cons (byte_eq_ofNat (by omega)).symm ?_
          exact congrArg₂ cons (byte_eq_ofNat (by omega)).symm rfl
        exact ⟨c, rest, by rw [henc]; rfl, by rw [henc]; rfl, hc.symm⟩
      · simp [hcont] at h
  rw [if_neg h3] at h
  by_cases h4 : lead.toNat < 0xf0
  · rw [if_pos h4] at h
    match rest, h with
    | [], h => cases h
    | [_], h => cases h
    | b₁ :: b₂ :: rest, h =>
      dsimp only at h
      by_cases hcont : utfCont b₁ = true ∧ utfCont b₂ = true
      · rw [hcont.1, hcont.2, if_neg (by decide)] at h
        rw [utfCont_iff, utfCont_iff] at hcont
        by_cases h5 : lead.toNat = 0xed ∧ 0x9f < b₁.toNat
        · rw [if_pos h5] at h
          cases h
        rw [if_neg h5] at h
        by_cases h6 : lead.toNat % 0x10 * 0x1000 + b₁.toNat % 0x40 * 0x40
            + b₂.toNat % 0x40 < 0x800
        · rw [if_pos h6] at h
          cases h
        rw [if_neg h6] at h
        cases h
        obtain ⟨c, hc⟩ := hchar
          (lead.toNat % 0x10 * 0x1000 + b₁.toNat % 0x40 * 0x40
            + b₂.toNat % 0x40) (by unfold Nat.isValidChar; omega)
        have henc : String.utf8EncodeChar c = [lead, b₁, b₂] := by
          unfold String.utf8EncodeChar
          dsimp only
          rw [hc, if_neg (by omega), if_neg (by omega), if_pos (by omega)]
          refine congrArg₂ cons (byte_eq_ofNat (by omega)).symm ?_
          refine congrArg₂ cons (byte_eq_ofNat (by omega)).symm ?_
          exact congrArg₂ cons (byte_eq_ofNat (by omega)).symm rfl
        exact ⟨c, rest, by rw [henc]; rfl, by rw [henc]; rfl, hc.symm⟩
      · rw [if_pos (by
          simp only [Bool.or_eq_true, Bool.not_eq_true', ← Bool.not_eq_true]
          tauto)] at h
        cases h
  rw [if_neg h4] at h
  match rest, h with
  | [], h => cases h
  | [_], h => cases h
  | [_, _], h => cases h
  | b₁ :: b₂ :: b₃ :: rest, h =>
    dsimp only at h
    by_cases hcont : utfCont b₁ = true ∧ utfCont b₂ = true ∧ utfCont b₃ = true
    · rw [hcont.1, hcont.2.1, hcont.2.2, if_neg (by decide)] at h
      rw [utfCont_iff, utfCont_iff, utfCont_iff] at hcont
      by_cases h5 : lead.toNat = 0xf0 ∧ b₁.toNat < 0x90
      · rw [if_pos h5] at h
        cases h
      rw [if_neg h5] at h
      by_cases h6 : lead.toNat = 0xf4 ∧ 0x8f < b₁.toNat
      · rw [if_pos h6] at h
        cases h
      rw [if_neg h6] at h
      cases h
      obtain ⟨c, hc⟩ := hchar
        (lead.toNat % 0x08 * 0x40000 + b₁.toNat % 0x40 * 0x1000
          + b₂.toNat % 0x40 * 0x40 + b₃.toNat % 0x40)
        (by unfold Nat.isValidChar; omega)
      have henc : String.utf8EncodeChar c = [lead, b₁, b₂, b₃] := by
        unfold String.utf8EncodeChar
        dsimp only
        rw [hc, if_neg (by omega), if_neg (by omega), if_neg (by omega)]
        refine congrArg₂ cons (byte_eq_ofNat (by omega)).symm ?_
        refine congrArg₂ cons (byte_eq_ofNat (by omega)).symm ?_
        refine congrArg₂ cons (byte_eq_ofNat (by omega)).symm ?_
        exact congrArg₂ cons (byte_eq_ofNat (by omega)).symm rfl
      exact ⟨c, rest, by rw [henc]; rfl, by rw [henc]; rfl, hc.symm⟩
    · rw [if_pos (by
        simp only [Bool.or_eq_true, Bool.not_eq_true', ← Bool.not_eq_true]
        tauto)] at h
      cases h

-- ============ a text

/-- The span of a character. -/
def spanOf (c : Char) : CodepointSpan := ⟨c.toNat, String.utf8EncodeChar c⟩

theorem spanOf_text (text : List Char) :
    (text.map spanOf).flatMap (·.text) = encode text := by
  unfold encode
  rw [flatMap_map]
  rfl

/-- A well-formed text is read character by character. -/
theorem utf8Codepoints_encode (text : List Char) (context : String) :
    utf8Codepoints (encode text) context = .ok (text.map spanOf) := by
  have hloop : ∀ (text : List Char) (fuel : Nat), (encode text).length ≤ fuel →
      utf8CodepointsFrom context fuel (encode text)
        = .ok (text.map spanOf) := by
    intro text
    induction text with
    | nil =>
      intro fuel _
      cases fuel with
      | zero => rfl
      | succ fuel => rfl
    | cons c text ih =>
      intro fuel hfuel
      obtain ⟨lead, tail, hchar, hread⟩ := iterate_encoded c (encode text)
      have hwhole : encode (c :: text) = lead :: (tail ++ encode text) := by
        rw [encode_cons, hchar]
        rfl
      rw [hwhole] at hfuel ⊢
      cases fuel with
      | zero => simp at hfuel
      | succ fuel =>
        have hsplit : lead :: (tail ++ encode text)
            = String.utf8EncodeChar c ++ encode text := by
          rw [hchar]
          rfl
        rw [utf8CodepointsFrom, hread]
        dsimp only
        rw [hsplit, drop_left' rfl, take_left' rfl, ih fuel ?_]
        · rfl
        · rw [length_cons, length_append] at hfuel
          omega
  exact hloop text _ (Nat.le_refl _)

/-- A text that is read is well formed, and its spans are its
characters. -/
theorem encode_of_utf8Codepoints {text : Bytes} {context : String}
    {spans : List CodepointSpan}
    (h : utf8Codepoints text context = .ok spans) :
    ∃ chars, text = encode chars ∧ spans = chars.map spanOf := by
  have hloop : ∀ (fuel : Nat) (text : Bytes) (spans : List CodepointSpan),
      text.length ≤ fuel →
      utf8CodepointsFrom context fuel text = .ok spans →
      ∃ chars, text = encode chars ∧ spans = chars.map spanOf := by
    intro fuel
    induction fuel with
    | zero =>
      intro text spans hfuel h
      obtain rfl : text = [] := length_eq_zero_iff.mp (by omega)
      cases h
      exact ⟨[], rfl, rfl⟩
    | succ fuel ih =>
      intro text spans hfuel h
      cases text with
      | nil =>
        cases h
        exact ⟨[], rfl, rfl⟩
      | cons lead rest =>
        rw [utf8CodepointsFrom] at h
        cases hread : utf8procIterate lead rest with
        | none =>
          rw [hread] at h
          cases h
        | some read =>
          obtain ⟨length, codepoint⟩ := read
          rw [hread] at h
          dsimp only at h
          obtain ⟨c, more, hchar, rfl, rfl⟩ := encoded_of_iterate hread
          rw [hchar, drop_left' rfl, take_left' rfl] at h
          have hlength := congrArg length hchar
          rw [length_append] at hlength
          have hpos : 0 < (String.utf8EncodeChar c).length :=
            length_pos_iff.mpr String.utf8EncodeChar_ne_nil
          obtain ⟨others, hrest, h⟩ := bind_ok.mp h
          cases h
          obtain ⟨chars, rfl, rfl⟩ := ih more others (by omega) hrest
          refine ⟨c :: chars, ?_, rfl⟩
          rw [hchar, encode_cons]
  exact hloop _ text spans (Nat.le_refl _) h

/-- The characters of a text are its own. -/
theorem encode_injective {a b : List Char} (h : encode a = encode b) :
    a = b := by
  have ha := utf8Codepoints_encode a ""
  rw [h, utf8Codepoints_encode b ""] at ha
  have hspans : b.map spanOf = a.map spanOf := Except.ok.inj ha
  have hvalues := congrArg (map CodepointSpan.value) hspans
  rw [map_map, map_map] at hvalues
  refine (map_injective_iff.mpr ?_ hvalues).symm
  intro c d hcd
  exact Char.toNat_inj.mp hcd

end Ginfer.Frontend
