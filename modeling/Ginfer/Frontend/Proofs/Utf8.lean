/-
What the scanner of generated bytes accepts.

The scanner is fed again from the first incomplete character each time
bytes arrive. Two facts make that the scan of all bytes at once:

- `validUtf8PrefixSize_append` — a scan goes on where an earlier one
  stopped;
- `validUtf8PrefixSize_encoded` — on the beginning of an encoded text the
  scan returns, at a character boundary; on the whole of it, at its end.

`String.utf8EncodeChar`, the encoding of one character, is the standard's
own table, so the texts `encode` writes are the well-formed UTF-8.
-/
import Ginfer.Frontend.Text

namespace Ginfer.Frontend

open Ginfer.Lib List

-- ============ the scan

/-- What the scanner takes is a whole character at the front; of less
than that it takes nothing. -/
theorem utf8Character_some {bytes : Bytes} {length : Nat}
    (h : utf8Character bytes = .ok (some length)) :
    0 < length ∧ length ≤ bytes.length
      ∧ (∀ more, utf8Character (bytes ++ more) = .ok (some length))
      ∧ ∀ short, short <+: bytes → short.length < length →
        utf8Character short = .ok none := by
  cases bytes with
  | nil => cases h
  | cons lead rest =>
    rw [utf8Character] at h
    obtain ⟨⟨size, bits, minimum⟩, hlead⟩ :
        ∃ table, utf8Lead lead.toNat = some table := by
      cases htable : utf8Lead lead.toNat with
      | none => rw [htable] at h; cases h
      | some table => exact ⟨table, rfl⟩
    rw [hlead] at h
    dsimp only at h
    by_cases henough : rest.length + 1 < size
    · rw [if_pos henough] at h
      cases h
    rw [if_neg henough] at h
    obtain ⟨codepoint, hbits⟩ : ∃ codepoint,
        utf8Continue bits (rest.take (size - 1)) = some codepoint := by
      cases hcode : utf8Continue bits (rest.take (size - 1)) with
      | none => rw [hcode] at h; cases h
      | some codepoint => exact ⟨codepoint, rfl⟩
    rw [hbits] at h
    dsimp only at h
    by_cases hrange : codepoint < minimum
        ∨ (0xd800 ≤ codepoint ∧ codepoint ≤ 0xdfff)
        ∨ 0x10ffff < codepoint
    · rw [if_pos hrange] at h
      cases h
    rw [if_neg hrange] at h
    obtain rfl : size = length := by
      simpa using h
    have hpos : 0 < size := by
      unfold utf8Lead at hlead
      split at hlead
      · cases hlead; decide
      split at hlead
      · cases hlead; decide
      split at hlead
      · cases hlead; decide
      split at hlead
      · cases hlead; decide
      · cases hlead
    refine ⟨hpos, by rw [length_cons]; omega, ?_, ?_⟩
    · intro more
      have htake : (rest ++ more).take (size - 1) = rest.take (size - 1) :=
        take_append_of_le_length (by omega)
      have henough' : ¬ (rest ++ more).length + 1 < size := by
        rw [length_append]
        omega
      rw [cons_append, utf8Character, hlead]
      dsimp only
      rw [if_neg henough', htake, hbits]
      dsimp only
      rw [if_neg hrange]
    · intro short hshort hlt
      cases short with
      | nil => rfl
      | cons b short =>
        obtain rfl := (cons_prefix_cons.mp hshort).1
        rw [length_cons] at hlt
        rw [utf8Character, hlead]
        dsimp only
        rw [if_pos hlt]

/-- The fuel and the offset do not matter. -/
theorem utf8Scan_eq : ∀ (fuel fuel' : Nat) (bytes : Bytes)
    (offset start : Nat), bytes.length ≤ fuel → bytes.length ≤ fuel' →
    utf8Scan fuel bytes (offset + start)
      = (utf8Scan fuel' bytes start).map (offset + ·) := by
  intro fuel
  induction fuel with
  | zero =>
    intro fuel' bytes offset start h _
    obtain rfl : bytes = [] := length_eq_zero_iff.mp (by omega)
    cases fuel' <;> rfl
  | succ fuel ih =>
    intro fuel' bytes offset start h h'
    cases fuel' with
    | zero =>
      obtain rfl : bytes = [] := length_eq_zero_iff.mp (by omega)
      rfl
    | succ fuel' =>
      unfold utf8Scan
      cases hchar : utf8Character bytes with
      | error e => rfl
      | ok taken =>
        cases taken with
        | none => rfl
        | some length =>
          obtain ⟨hpos, hle, -, -⟩ := utf8Character_some hchar
          have hshort : (bytes.drop length).length ≤ fuel := by
            rw [length_drop]
            omega
          have hshort' : (bytes.drop length).length ≤ fuel' := by
            rw [length_drop]
            omega
          dsimp only
          rw [Nat.add_assoc]
          exact ih fuel' _ offset (start + length) hshort hshort'

/-- One turn of the scan. -/
theorem validUtf8PrefixSize_eq (bytes : Bytes) :
    validUtf8PrefixSize bytes
      = match utf8Character bytes with
        | .error e => .error e
        | .ok none => .ok 0
        | .ok (some length) =>
        (validUtf8PrefixSize (bytes.drop length)).map (length + ·) := by
  cases bytes with
  | nil => rfl
  | cons b rest =>
    unfold validUtf8PrefixSize
    rw [length_cons, utf8Scan]
    cases hchar : utf8Character (b :: rest) with
    | error e => rfl
    | ok taken =>
      cases taken with
      | none => rfl
      | some length =>
        obtain ⟨hpos, -, -, -⟩ := utf8Character_some hchar
        have hshort : ((b :: rest).drop length).length ≤ rest.length := by
          rw [length_drop, length_cons]
          omega
        dsimp only
        rw [Nat.zero_add]
        exact utf8Scan_eq _ _ _ length 0 hshort (Nat.le_refl _)

/-- A scan goes on where an earlier one stopped. -/
theorem validUtf8PrefixSize_append {bytes : Bytes} {n : Nat}
    (h : validUtf8PrefixSize bytes = .ok n) (more : Bytes) :
    n ≤ bytes.length
      ∧ validUtf8PrefixSize (bytes ++ more)
        = (validUtf8PrefixSize (bytes.drop n ++ more)).map (n + ·) := by
  induction hlen : bytes.length using Nat.strong_induction_on
    generalizing bytes n with
  | _ size ih =>
  rw [validUtf8PrefixSize_eq] at h
  cases hchar : utf8Character bytes with
  | error e => rw [hchar] at h; cases h
  | ok taken =>
    rw [hchar] at h
    cases taken with
    | none =>
      cases h
      refine ⟨Nat.zero_le _, ?_⟩
      rw [drop_zero]
      cases validUtf8PrefixSize (bytes ++ more) with
      | error e => rfl
      | ok m => simp [Except.map]
    | some length =>
      obtain ⟨hpos, hle, hmore, -⟩ := utf8Character_some hchar
      dsimp only at h
      cases hrest : validUtf8PrefixSize (bytes.drop length) with
      | error e => rw [hrest] at h; cases h
      | ok m =>
        rw [hrest] at h
        cases h
        obtain ⟨hm, hscan⟩ := ih (bytes.drop length).length
          (by rw [length_drop]; omega) hrest rfl
        rw [length_drop] at hm
        dsimp only
        refine ⟨by omega, ?_⟩
        rw [validUtf8PrefixSize_eq, hmore more]
        dsimp only
        rw [drop_append_of_le_length hle, hscan, drop_drop]
        cases validUtf8PrefixSize
            (bytes.drop (length + m) ++ more) with
        | error e => rfl
        | ok k =>
          simp only [Except.map]
          congr 1
          omega

-- ============ the encoding

theorem scalar_range (c : Char) :
    c.val.toNat < 0xd800
      ∨ (0xdfff < c.val.toNat ∧ c.val.toNat < 0x110000) := c.valid

/-- The scanner takes an encoded character whole. -/
theorem utf8Character_encode (c : Char) (rest : Bytes) :
    utf8Character (String.utf8EncodeChar c ++ rest)
      = .ok (some (String.utf8EncodeChar c).length) := by
  have hrange := scalar_range c
  have hnext : ∀ w, (UInt8.ofNat (w % 0x40 + 0x80)).toNat = w % 64 + 0x80 := by
    intro w
    rw [UInt8.toNat_ofNat']
    omega
  unfold String.utf8EncodeChar
  dsimp only
  generalize c.val.toNat = v at *
  split
  · next h1 =>
    have hlead : (UInt8.ofNat v).toNat = v := by
      rw [UInt8.toNat_ofNat']
      omega
    have htable : utf8Lead v = some (1, v, 0) := if_pos h1
    simp only [cons_append, nil_append, utf8Character, hlead, htable]
    rw [if_neg (by omega)]
    simp only [Nat.sub_self, take_zero, utf8Continue]
    rw [if_neg (by omega)]
    rfl
  split
  · next h1 h2 =>
    have hlead : (UInt8.ofNat (v / 64 % 0x20 + 0xc0)).toNat
        = v / 64 + 0xc0 := by
      rw [UInt8.toNat_ofNat']
      omega
    have htable : utf8Lead (v / 64 + 0xc0) = some (2, v / 64, 0x80) := by
      unfold utf8Lead
      rw [if_neg (by omega), if_pos (by omega)]
      congr 3
      omega
    simp only [cons_append, nil_append, utf8Character, hlead,
      htable, length_cons]
    rw [if_neg (by omega)]
    simp only [Nat.add_one_sub_one, take_succ_cons, take_zero,
      utf8Continue, hnext]
    rw [if_pos (by omega)]
    dsimp only
    rw [if_neg (by omega)]
    rfl
  split
  · next h1 h2 h3 =>
    have hlead : (UInt8.ofNat (v / 4096 % 0x10 + 0xe0)).toNat
        = v / 4096 + 0xe0 := by
      rw [UInt8.toNat_ofNat']
      omega
    have htable : utf8Lead (v / 4096 + 0xe0) = some (3, v / 4096, 0x800) := by
      unfold utf8Lead
      rw [if_neg (by omega), if_neg (by omega), if_pos (by omega)]
      congr 3
      omega
    simp only [cons_append, nil_append, utf8Character, hlead,
      htable, length_cons]
    rw [if_neg (by omega)]
    simp only [Nat.add_one_sub_one, take_succ_cons, take_zero,
      utf8Continue, hnext]
    rw [if_pos (by omega), if_pos (by omega)]
    dsimp only
    rw [if_neg (by omega)]
    rfl
  · next h1 h2 h3 =>
    have hlead : (UInt8.ofNat (v / 262144 % 0x08 + 0xf0)).toNat
        = v / 262144 + 0xf0 := by
      rw [UInt8.toNat_ofNat']
      omega
    have htable : utf8Lead (v / 262144 + 0xf0)
        = some (4, v / 262144, 0x10000) := by
      unfold utf8Lead
      rw [if_neg (by omega), if_neg (by omega), if_neg (by omega),
        if_pos (by omega)]
      congr 3
      omega
    simp only [cons_append, nil_append, utf8Character, hlead,
      htable, length_cons]
    rw [if_neg (by omega)]
    simp only [Nat.add_one_sub_one, take_succ_cons, take_zero,
      utf8Continue, hnext]
    rw [if_pos (by omega), if_pos (by omega), if_pos (by omega)]
    dsimp only
    rw [if_neg (by omega)]
    rfl

theorem encode_cons (c : Char) (text : List Char) :
    encode (c :: text) = String.utf8EncodeChar c ++ encode text :=
  flatMap_cons

/-- On the beginning of an encoded text the scan returns, after the last
character that is all there. -/
theorem validUtf8PrefixSize_encoded (text : List Char) :
    ∀ bytes, bytes <+: encode text →
      ∃ k, k ≤ text.length
        ∧ validUtf8PrefixSize bytes = .ok (encode (text.take k)).length
        ∧ encode (text.take k) <+: bytes
        ∧ (k < text.length →
        bytes.length < (encode (text.take (k + 1))).length) := by
  induction text with
  | nil =>
    intro bytes h
    obtain rfl := prefix_nil.mp h
    exact ⟨0, Nat.le_refl _, rfl, prefix_rfl, nofun⟩
  | cons c text ih =>
    intro bytes h
    rw [encode_cons] at h
    have htaken := utf8Character_encode c []
    rw [append_nil] at htaken
    obtain ⟨-, -, hmore, hshort⟩ := utf8Character_some htaken
    by_cases hlt : bytes.length < (String.utf8EncodeChar c).length
    · have hfront : bytes <+: String.utf8EncodeChar c :=
        prefix_of_prefix_length_le h (prefix_append _ _) (by omega)
      refine ⟨0, Nat.zero_le _, ?_, nil_prefix, ?_⟩
      · rw [validUtf8PrefixSize_eq, hshort bytes hfront hlt]
        rfl
      · intro _
        rw [Nat.zero_add, take_succ_cons, take_zero, encode_cons, length_append]
        omega
    · -- The first character is there: the rest is scanned behind it.
      obtain ⟨more, rfl⟩ : String.utf8EncodeChar c <+: bytes :=
        prefix_of_prefix_length_le (prefix_append _ _) h (by omega)
      rw [prefix_append_right_inj] at h
      obtain ⟨k, hk, hscan, hfront, hnext⟩ := ih more h
      refine ⟨k + 1, by rw [length_cons]; omega, ?_, ?_, ?_⟩
      · rw [validUtf8PrefixSize_eq, hmore more]
        dsimp only
        rw [drop_left' rfl, hscan, take_succ_cons, encode_cons, length_append]
        rfl
      · rw [take_succ_cons, encode_cons]
        exact (prefix_append_right_inj _).mpr hfront
      · intro hlt'
        rw [length_cons] at hlt'
        rw [take_succ_cons, encode_cons, length_append, length_append]
        have hless := hnext (by omega)
        omega

/-- The text among the first bytes of a stream: its whole characters. -/
def scannedText (bytes : Bytes) : Bytes :=
  match validUtf8PrefixSize bytes with
  | .ok n => bytes.take n
  | .error _ => []

/-- Well-formed bytes are all text. -/
theorem scannedText_encode (text : List Char) :
    scannedText (encode text) = encode text := by
  obtain ⟨k, hk, hscan, hfront, hnext⟩ :=
    validUtf8PrefixSize_encoded text (encode text) prefix_rfl
  have hall : k = text.length := by
    by_contra hne
    have hlt := hnext (by omega)
    have hle : (encode (text.take (k + 1))).length ≤ (encode text).length := by
      conv_rhs => rw [← take_append_drop (k + 1) text]
      unfold encode
      rw [flatMap_append, length_append]
      omega
    omega
  unfold scannedText
  rw [hscan, hall, take_length]
  dsimp only
  rw [take_length]

end Ginfer.Frontend
