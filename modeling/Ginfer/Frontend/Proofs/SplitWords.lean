/-
The word splitter is the pre-tokenizer's pattern.

`pattern` is the pattern, written as an expression over the characters
with the code's classes, and `Regex.findAll` its successive matches. The
hand-written scanner never backtracks; what it computes instead is the
first end a backtracking matcher would come to.

# Method

A text is its characters here, not its spans (`countWhile_spanOf`). Each
alternative has one lemma for what it matches at the front of a text
(`first_contraction` … `first_whitespace`), the two that backtrack going
through `Regex.findSome_countdown`: the last line break of a run is the
longest run from which a line break goes on (`first_lineBreaks`), and a
run not at the end of the text leaves one character (`first_trailing`).
`first_pattern` puts them together, and `qwenSplitWords_eq` is the loop.
-/
import Ginfer.Lib.Regex
import Ginfer.Frontend.Proofs.Tokenizer

namespace Ginfer.Frontend

open Ginfer.Lib List UInt8 Option
open Ginfer.Lib.Regex

-- ============ the pattern

/-- A letter in either case: `(?i:` is read in ASCII. An engine that folds
by Unicode also takes `ſ` for `s`. -/
def eitherCase (letter c : Char) : Bool :=
  c.toNat == letter.toNat || c.toNat + 0x20 == letter.toNat

/-- What follows the apostrophe of a contraction. -/
def contractionLetters : List (List Char) :=
  [['s'], ['t'], ['r', 'e'], ['v', 'e'], ['m'], ['l', 'l'], ['d']]

/-- `[\r\n]`. -/
def lineBreak (c : Char) : Bool := isNewline c.toNat

namespace UnicodeTables

variable (u : UnicodeTables)

/-- `\s`. -/
def space (c : Char) : Bool := u.isWhitespace c.toNat

/-- `[\p{L}\p{M}]`. -/
def letterMark (c : Char) : Bool := u.isLetterOrMark c.toNat

/-- `\p{N}`. -/
def number (c : Char) : Bool := u.isNumber c.toNat

/-- `[^\r\n\p{L}\p{N}]`. -/
def lead (c : Char) : Bool := u.isNonNewlineNonLetterNonNumber c.toNat

/-- `[^\s\p{L}\p{M}\p{N}]`. -/
def sign (c : Char) : Bool := u.isNonSpaceNonLetterMarkNumber c.toNat

/-- `(?i:'s|'t|'re|'ve|'m|'ll|'d)|[^\r\n\p{L}\p{N}]?[\p{L}\p{M}]+|\p{N}|`
`` ?[^\s\p{L}\p{M}\p{N}]+[\r\n]*|\s*[\r\n]+|\s+(?!\S)|\s+``. -/
def pattern : Regex Char :=
  alts
    [ alts (contractionLetters.map fun letters =>
        word ((· == '\'') :: letters.map eitherCase)),
      seq (opt (one u.lead)) (plus (one u.letterMark)),
      one u.number,
      seq (opt (one (· == ' '))) (seq (plus (one u.sign)) (many (one lineBreak))),
      seq (many (one u.space)) (plus (one lineBreak)),
      seq (plus (one u.space)) (notBefore fun c => !u.space c),
      plus (one u.space) ]

end UnicodeTables

-- ============ spans and characters

/-- A count over the spans is the run of the class. -/
theorem countWhile_spanOf (p : Nat → Bool) (text : List Char) :
    countWhile p (text.map spanOf) = run (fun c => p c.toNat) text := by
  unfold countWhile run
  rw [takeWhile_map, length_map]
  rfl

theorem head_any_spanOf (p : Nat → Bool) (text : List Char) :
    ((text.map spanOf).head?.any fun span => p span.value)
      = text.head?.any fun c => p c.toNat := by
  cases text with
  | nil => rfl
  | cons c text => rfl

-- ============ contractions

theorem toLower_toNat (b : UInt8) :
    (toLower b).toNat
      = if 0x41 ≤ b.toNat ∧ b.toNat ≤ 0x5a then b.toNat + 0x20
        else b.toNat := by
  have hlow : (0x41 ≤ b) ↔ 0x41 ≤ b.toNat := le_iff_toNat_le
  have hhigh : (b ≤ 0x5a) ↔ b.toNat ≤ 0x5a := le_iff_toNat_le
  unfold toLower
  rw [if_congr (and_congr hlow hhigh) rfl rfl]
  split
  · rw [UInt8.toNat_add]
    show (b.toNat + 0x20) % 256 = _
    omega
  · rfl

/-- A character is one byte below `0x80`, or begins with a byte from
`0x80` on. -/
theorem encodeChar_cases (c : Char) :
    ∃ lead tail, String.utf8EncodeChar c = lead :: tail
      ∧ ((c.toNat < 0x80 ∧ lead.toNat = c.toNat ∧ tail = [])
        ∨ (0x80 ≤ c.toNat ∧ 0x80 ≤ lead.toNat)) := by
  have hvalue : c.toNat = c.val.toNat := rfl
  rw [hvalue]
  unfold String.utf8EncodeChar
  dsimp only
  generalize c.val.toNat = v at *
  split
  · exact ⟨_, _, rfl, .inl ⟨by omega, by rw [toNat_ofNat']; omega, rfl⟩⟩
  split
  · exact ⟨_, _, rfl, .inr ⟨by omega, by
      rw [toNat_ofNat']; omega⟩⟩
  split
  · exact ⟨_, _, rfl, .inr ⟨by omega, by
      rw [toNat_ofNat']; omega⟩⟩
  · exact ⟨_, _, rfl, .inr ⟨by omega, by
      rw [toNat_ofNat']; omega⟩⟩

/-- A byte compared without case is a character of the class. -/
theorem toLower_eitherCase {letter : Char}
    (hletter : 0x61 ≤ letter.toNat ∧ letter.toNat ≤ 0x7a) (c : Char) :
    ∃ lead tail, String.utf8EncodeChar c = lead :: tail
      ∧ (toLower lead == toLower (ofNat letter.toNat)) = eitherCase letter c
      ∧ (eitherCase letter c = true → tail = []) := by
  obtain ⟨lead, tail, hchar, hcase⟩ := encodeChar_cases c
  have hbyte : (ofNat letter.toNat).toNat = letter.toNat := by
    rw [toNat_ofNat']
    omega
  have hlower : (toLower (ofNat letter.toNat)).toNat = letter.toNat := by
    rw [toLower_toNat, hbyte, if_neg (by omega)]
  refine ⟨lead, tail, hchar, ?_, ?_⟩
  · rw [Bool.eq_iff_iff, beq_iff_eq, ← UInt8.toNat_inj, hlower, toLower_toNat]
    unfold eitherCase
    rw [Bool.or_eq_true, beq_iff_eq, beq_iff_eq]
    rcases hcase with ⟨-, hsame, -⟩ | ⟨hlarge, hhigh⟩
    · rw [hsame]
      split <;> omega
    · split <;> omega
  · intro heither
    unfold eitherCase at heither
    rw [Bool.or_eq_true, beq_iff_eq, beq_iff_eq] at heither
    rcases hcase with ⟨-, -, htail⟩ | ⟨hlarge, -⟩
    · exact htail
    · omega

/-- The comparison with a suffix reads as many characters as the suffix
has letters. -/
theorem asciiCiMatches_letters :
    ∀ (letters text : List Char),
      (∀ l ∈ letters, 0x61 ≤ l.toNat ∧ l.toNat ≤ 0x7a) →
      asciiCiMatches (encode text) (letters.map fun l => ofNat l.toNat)
        = (decide (letters.length ≤ text.length)
        && ((letters.map eitherCase).zip text).all fun c => c.1 c.2)
      ∧ (asciiCiMatches (encode text)
        (letters.map fun l => ofNat l.toNat) = true →
        spansWithin letters.length (text.map spanOf) = letters.length) := by
  intro letters
  induction letters with
  | nil =>
    intro text _
    refine ⟨by simp [asciiCiMatches], fun _ => ?_⟩
    cases text <;> rfl
  | cons letter letters ih =>
    intro text hletters
    obtain ⟨hletter, hrest⟩ := forall_mem_cons.mp hletters
    cases text with
    | nil => exact ⟨by simp [asciiCiMatches, encode], by
      simp [asciiCiMatches, encode]⟩
    | cons c text =>
      obtain ⟨lead, tail, hchar, hlead, htail⟩ :=
        toLower_eitherCase hletter c
      obtain ⟨hmatch, hspans⟩ := ih text hrest
      have hstep : asciiCiMatches (encode (c :: text))
          ((letter :: letters).map fun l => ofNat l.toNat)
          = (eitherCase letter c
            && asciiCiMatches (encode text)
              (letters.map fun l => ofNat l.toNat)) := by
        rw [encode_cons, hchar]
        cases heither : eitherCase letter c with
        | false =>
          rw [heither] at hlead
          unfold asciiCiMatches
          simp [hlead]
        | true =>
          rw [heither] at hlead
          rw [htail heither]
          unfold asciiCiMatches
          simp [hlead]
      rw [hstep, hmatch]
      refine ⟨?_, fun hall => ?_⟩
      · simp only [length_cons, Nat.add_le_add_iff_right,
          map_cons, zip_cons_cons, all_cons]
        cases eitherCase letter c with
        | false => simp
        | true => simp
      · rw [Bool.and_eq_true] at hall
        have hone : (spanOf c).text.length = 1 := by
          show (String.utf8EncodeChar c).length = 1
          rw [hchar, htail hall.1]
          rfl
        rw [map_cons, length_cons, spansWithin,
          if_pos (Nat.succ_pos _), hone, Nat.add_sub_cancel,
          hspans (by rw [hmatch]; exact hall.2), add_comm]

/-- The words after the apostrophe, in the order they are tried. -/
theorem first_contractions (words : List (List Char))
    (hwords : ∀ w ∈ words, ∀ l ∈ w, 0x61 ≤ l.toNat ∧ l.toNat ≤ 0x7a)
    (c : Char) (text : List Char) :
    first (alts (words.map fun letters =>
        word ((· == '\'') :: letters.map eitherCase))) (c :: text)
      = if c = '\'' then
        ((words.map fun letters =>
            letters.map fun l => ofNat l.toNat).find?
          (asciiCiMatches (encode text))).map fun suffix =>
            1 + spansWithin suffix.length (text.map spanOf)
        else none := by
  induction words with
  | nil =>
    rw [map_nil, first_alts_nil]
    split <;> rfl
  | cons letters words ih =>
    obtain ⟨hletters, hrest⟩ := forall_mem_cons.mp hwords
    obtain ⟨hmatch, hspans⟩ := asciiCiMatches_letters letters text hletters
    rw [map_cons, first_alts_cons, ih hrest, first_word,
      length_cons, length_cons, length_map,
      zip_cons_cons, all_cons]
    dsimp only
    by_cases hquote : c = '\''
    · have hand : (letters.length + 1 ≤ text.length + 1
            ∧ (c == '\'' && ((letters.map eitherCase).zip text).all
              fun d => d.1 d.2) = true)
          ↔ asciiCiMatches (encode text)
              (letters.map fun l => ofNat l.toNat) = true := by
        rw [hmatch, hquote]
        simp
      rw [if_pos hquote, if_pos hquote, if_congr hand rfl rfl,
        map_cons, find?_cons]
      cases hfound : asciiCiMatches (encode text)
          (letters.map fun l => ofNat l.toNat) with
      | false => rfl
      | true =>
        rw [if_pos rfl, map_some, length_map, hspans hfound, add_comm]
        rfl
    · rw [if_neg hquote, if_neg hquote, if_neg]
      · rfl
      · rintro ⟨-, hall⟩
        rw [Bool.and_eq_true, beq_iff_eq] at hall
        exact hquote hall.1

theorem first_contraction (c : Char) (text : List Char) :
    first (alts (contractionLetters.map fun letters =>
        word ((· == '\'') :: letters.map eitherCase))) (c :: text)
      = if c = '\'' then contractionSize (text.map spanOf) else none := by
  rw [first_contractions contractionLetters (by simp [contractionLetters])]
  unfold contractionSize
  rw [spanOf_text]
  rfl

-- ============ the plain words

namespace UnicodeTables

variable (u : UnicodeTables) (c : Char) (text : List Char)

/-- Letters and marks, behind one character of another kind. A mark is of
both kinds, and the matcher takes it for the first where it can. -/
theorem first_letters :
    first (seq (opt (one u.lead)) (plus (one u.letterMark))) (c :: text)
      = if u.letterMark c = true then
        some (run u.letterMark (c :: text))
        else if u.lead c = true ∧ text.head?.any u.letterMark = true then
        some (1 + run u.letterMark text)
        else none := by
  rw [first_opt_one_seq, first_plus_one, first_plus_one, run_cons]
  have hhead := run_pos_iff u.letterMark text
  by_cases hletter : u.letterMark c = true
  · rw [if_pos hletter, if_pos hletter, if_pos (Nat.succ_pos _)]
    by_cases hlead : u.lead c = true
    · rw [if_pos hlead]
      split
      · simp [add_comm]
      · next hzero => simp
    · rw [if_neg hlead]
      rfl
  · rw [if_neg hletter, if_neg hletter, if_neg (lt_irrefl 0),
      or_none, if_congr hhead rfl rfl]
    by_cases hlead : u.lead c = true
    · rw [if_pos hlead]
      split
      · next hnext => rw [if_pos ⟨hlead, hnext⟩]; rfl
      · next hnext => rw [if_neg fun h => hnext h.2]; rfl
    · rw [if_neg hlead, if_neg fun h => hlead h.1]

theorem first_number :
    first (one u.number) (c :: text)
      = if u.number c = true then some 1 else none := by
  unfold first
  rw [ends]
  split <;> rfl

/-- Signs and the line breaks after them. -/
theorem first_signs_after (text : List Char) :
    first (seq (plus (one u.sign)) (many (one lineBreak))) text
      = if 0 < run u.sign text then
        some (run u.sign text + run lineBreak (text.drop (run u.sign text)))
        else none := by
  rw [first_seq, ends_plus_one]
  split
  · next hpos =>
    obtain ⟨n, hn⟩ : ∃ n, run u.sign text = n + 1 :=
      ⟨run u.sign text - 1, by omega⟩
    rw [hn, Nat.add_sub_cancel]
    cases n with
    | zero =>
      show findSome? _ [1] = _
      rw [findSome?_cons, first_many_one]
      rfl
    | succ n =>
      rw [countdown_succ, map_cons, findSome?_cons, first_many_one]
      rfl
  · rfl

/-- A space is no sign. -/
theorem sign_space : u.sign ' ' = false := rfl

/-- Signs, behind one space. -/
theorem first_signs :
    first (seq (opt (one (· == ' '))) (seq (plus (one u.sign))
        (many (one lineBreak)))) (c :: text)
      = if c = ' ' ∧ text.head?.any u.sign = true then
        some (1 + run u.sign text + run lineBreak (text.drop (run u.sign text)))
        else if u.sign c = true then
        some (run u.sign (c :: text) + run lineBreak
          ((c :: text).drop (run u.sign (c :: text))))
        else none := by
  rw [first_opt_one_seq, u.first_signs_after, u.first_signs_after]
  have hhead := run_pos_iff u.sign text
  have hsign := run_pos_iff u.sign (c :: text)
  rw [head?_cons, any_some] at hsign
  by_cases hspace : c = ' '
  · have hnot : ¬0 < run u.sign (c :: text) := by
      rw [hsign, hspace, u.sign_space]
      exact Bool.false_ne_true
    rw [if_neg hnot, or_none, if_pos (beq_iff_eq.mpr hspace),
      if_congr hhead rfl rfl]
    split
    · next hnext =>
      rw [if_pos ⟨hspace, hnext⟩, map_some, add_assoc]
    · next hnext =>
      rw [if_neg fun h => hnext h.2, if_neg fun h => hnot (hsign.mpr h)]
      rfl
  · rw [if_neg (fun h => hspace (beq_iff_eq.mp h)),
      none_or, if_congr hsign rfl rfl]
    exact (if_neg fun h => hspace h.1).symm

-- ============ whitespace

/-- A line break is whitespace. -/
theorem space_lineBreak {c : Char} (h : lineBreak c = true) :
    u.space c = true := by
  unfold lineBreak isNewline at h
  rw [Bool.or_eq_true, beq_iff_eq, beq_iff_eq] at h
  unfold space isWhitespace
  rw [if_pos (by omega)]

end UnicodeTables

/-- The last of a list that satisfies `p`: behind it nothing does. -/
theorem findIdx_reverse_some {α : Type} {p : α → Bool} {xs : List α}
    {fromEnd : Nat} (h : xs.reverse.findIdx? p = some fromEnd) :
    fromEnd < xs.length ∧ (xs.drop (xs.length - fromEnd - 1)).head?.any p = true
      ∧ ∀ m, xs.length - fromEnd ≤ m → (xs.drop m).head?.any p = false := by
  obtain ⟨hlt, hlast, hbefore⟩ := findIdx?_eq_some_iff_getElem.mp h
  rw [length_reverse] at hlt
  refine ⟨hlt, ?_, ?_⟩
  · rw [getElem_reverse] at hlast
    rw [head?_drop, getElem?_eq_getElem (by omega), any_some]
    rw [← hlast]
    congr 2
    omega
  · intro m hm
    rcases lt_or_ge m xs.length with hin | hout
    · have hno := hbefore (xs.length - 1 - m) (by omega)
      rw [getElem_reverse] at hno
      rw [head?_drop, getElem?_eq_getElem hin, any_some]
      rw [Bool.not_eq_true] at hno
      rw [← hno]
      congr 2
      omega
    · rw [drop_eq_nil_of_le hout]
      rfl

namespace UnicodeTables

variable (u : UnicodeTables) (text : List Char)

/-- The run of whitespace at the front. -/
def spaces : List Char := text.takeWhile u.space

theorem spaces_length : (u.spaces text).length = run u.space text := rfl

/-- Within the run the text is the run. -/
theorem head_drop_spaces {m : Nat} (h : m < (u.spaces text).length) :
    (text.drop m).head? = ((u.spaces text).drop m).head? := by
  have hsplit : u.spaces text ++ text.dropWhile u.space = text :=
    takeWhile_append_dropWhile
  conv_lhs => rw [← hsplit]
  rw [head?_drop, head?_drop, getElem?_append_left h]

/-- What ends the run is no line break. -/
theorem no_lineBreak_at_end :
    (text.drop (run u.space text)).head?.any lineBreak = false := by
  have hstop := run_stops u.space text
  cases hhead : (text.drop (run u.space text)).head? with
  | none => rfl
  | some c =>
    rw [hhead, any_some] at hstop
    rw [any_some]
    cases hbreak : lineBreak c with
    | false => rfl
    | true =>
      rw [u.space_lineBreak hbreak] at hstop
      cases hstop

/-- Behind the last line break of a run there is none. -/
theorem no_lineBreak_after {fromEnd m : Nat}
    (h : (u.spaces text).reverse.findIdx? lineBreak = some fromEnd)
    (hm : (u.spaces text).length - fromEnd ≤ m)
    (hle : m ≤ (u.spaces text).length) :
    (text.drop m).head?.any lineBreak = false := by
  rcases lt_or_ge m (u.spaces text).length with hin | hout
  · rw [u.head_drop_spaces text hin]
    exact (findIdx_reverse_some h).2.2 m hm
  · rw [le_antisymm hle hout]
    exact u.no_lineBreak_at_end text

/-- Whitespace up to its last line break. -/
theorem first_lineBreaks :
    first (seq (many (one u.space)) (plus (one lineBreak))) text
      = ((u.spaces text).reverse.findIdx? lineBreak).map fun fromEnd =>
        (u.spaces text).length - fromEnd := by
  rw [first_seq, ends_many_one]
  have hnone : ∀ m, (text.drop m).head?.any lineBreak = false →
      (first (plus (one lineBreak)) (text.drop m)).map (m + ·) = none := by
    intro m hm
    rw [first_plus_one, if_neg]
    · rfl
    · rw [run_pos_iff, hm]
      exact Bool.false_ne_true
  cases hlast : (u.spaces text).reverse.findIdx? lineBreak with
  | none =>
    refine findSome_countdown_none fun m hm => hnone m ?_
    rcases lt_or_ge m (u.spaces text).length with hin | hout
    · rw [u.head_drop_spaces text hin, head?_drop,
        getElem?_eq_getElem hin, any_some]
      rw [findIdx?_eq_none_iff] at hlast
      exact hlast _ (mem_reverse.mpr (getElem_mem hin))
    · rw [le_antisymm hm hout]
      exact u.no_lineBreak_at_end text
  | some fromEnd =>
    obtain ⟨hlt, hbreak, -⟩ := findIdx_reverse_some hlast
    have hlen := u.spaces_length text
    rw [← u.head_drop_spaces text (by omega)] at hbreak
    refine findSome_countdown (n := (u.spaces text).length - fromEnd - 1)
      (by omega) ?_ ?_
    · -- One line break: none comes after the last.
      have hone : run lineBreak
          (text.drop ((u.spaces text).length - fromEnd - 1)) = 1 := by
        have hafter := u.no_lineBreak_after text hlast (le_refl _)
          (Nat.sub_le _ _)
        cases hdrop : text.drop
            ((u.spaces text).length - fromEnd - 1) with
        | nil =>
          rw [hdrop] at hbreak
          cases hbreak
        | cons c rest =>
          have htail : text.drop ((u.spaces text).length - fromEnd)
              = rest := by
            have hstep := congrArg tail hdrop
            rw [tail_drop, tail_cons] at hstep
            rw [← hstep]
            congr 1
            omega
          rw [hdrop, head?_cons, any_some] at hbreak
          rw [htail] at hafter
          have hzero := (run_pos_iff lineBreak rest).not.mpr
            (by rw [hafter]; exact Bool.false_ne_true)
          rw [run_cons, if_pos hbreak]
          omega
      rw [first_plus_one, hone, if_pos Nat.one_pos]
      show some ((u.spaces text).length - fromEnd - 1 + 1)
        = some ((u.spaces text).length - fromEnd)
      congr 1
      omega
    · intro m hm hle
      exact hnone m (u.no_lineBreak_after text hlast (by omega) hle)

/-- Whitespace that no other character follows, so one is left for the
next word unless the text ends. -/
theorem first_trailing :
    first (seq (plus (one u.space)) (notBefore fun c => !u.space c)) text
      = if 0 < run u.space text ∧ run u.space text = text.length then
        some (run u.space text)
        else if 2 ≤ run u.space text then some (run u.space text - 1)
        else none := by
  rw [first_seq, ends_plus_one]
  by_cases hpos : 0 < run u.space text
  · obtain ⟨w, hw⟩ : ∃ w, run u.space text = w + 1 :=
      ⟨run u.space text - 1, by omega⟩
    have hstop := run_stops u.space text
    have hle := run_le u.space text
    rw [if_pos hpos, hw, Nat.add_sub_cancel, findSome?_map]
    rw [hw] at hstop hle
    cases hhead : (text.drop (w + 1)).head? with
    | none =>
      rw [head?_eq_none_iff, drop_eq_nil_iff] at hhead
      rw [if_pos ⟨Nat.succ_pos _, by omega⟩]
      refine findSome_countdown (n := w) (le_refl _) ?_
        (fun m hm hle => absurd hm (by omega))
      show (first _ (text.drop (w + 1))).map _ = _
      rw [drop_eq_nil_of_le hhead]
      rfl
    | some c =>
      rw [hhead, any_some] at hstop
      have hlt : w + 1 < text.length := by
        rcases lt_or_ge (w + 1) text.length with hlt | hge
        · exact hlt
        · rw [drop_eq_nil_of_le hge] at hhead
          cases hhead
      -- At the end of the run another character follows.
      have hlast : (first (notBefore fun c => !u.space c)
          (text.drop (w + 1))).map (w + 1 + ·) = none := by
        unfold first
        rw [ends, hhead, any_some, hstop]
        rfl
      rw [if_neg (by omega)]
      cases w with
      | zero =>
        refine findSome_countdown_none fun m hm => ?_
        rw [Nat.le_zero.mp hm]
        exact hlast
      | succ w =>
        rw [if_pos (by omega)]
        refine findSome_countdown (n := w) (by omega) ?_ fun m hm hle => ?_
        · have hinside := @run_all _ u.space text (w + 1) (by omega)
          show (first _ (text.drop (w + 1))).map _ = _
          cases hnext : (text.drop (w + 1)).head? with
          | none =>
            rw [hnext] at hinside
            cases hinside
          | some d =>
            rw [hnext, any_some] at hinside
            unfold first
            rw [ends, hnext, any_some, hinside]
            rfl
        · obtain rfl : m = w + 1 := by omega
          exact hlast
  · rw [if_neg hpos, if_neg (by omega), if_neg (by omega)]
    rfl

/-- The scanner's end of a run of whitespace. -/
theorem whitespaceSize_spanOf (hpos : 0 < run u.space text) :
    (first (seq (many (one u.space)) (plus (one lineBreak))) text).or
        ((first (seq (plus (one u.space)) (notBefore fun c => !u.space c))
        text).or (first (plus (one u.space)) text))
      = some (whitespaceSize (text.map spanOf)
        ((text.map spanOf).takeWhile fun next =>
          u.isWhitespace next.value)) := by
  have hrun : ((text.map spanOf).takeWhile fun next =>
      u.isWhitespace next.value) = (u.spaces text).map spanOf :=
    takeWhile_map
  have hlast : ((u.spaces text).map spanOf).reverse.findIdx?
        (fun span => isNewline span.value)
      = (u.spaces text).reverse.findIdx? lineBreak := by
    rw [← map_reverse, findIdx?_map]
    rfl
  rw [first_lineBreaks, first_trailing, first_plus_one, hrun]
  unfold whitespaceSize
  rw [hlast, length_map, length_map, spaces_length, if_pos hpos]
  cases (u.spaces text).reverse.findIdx? lineBreak with
  | some fromEnd => rfl
  | none =>
    dsimp only [map_none, none_or]
    by_cases hend : run u.space text = text.length
    · rw [if_pos ⟨hpos, hend⟩, if_pos hend]
      rfl
    · rw [if_neg fun h => hend h.2, if_neg hend]
      split <;> rfl

-- ============ a word

/-- A character that is none of the others is whitespace. -/
theorem space_of_others {c : Char} (hletter : ¬u.letterMark c = true)
    (hnumber : ¬u.number c = true) (hsign : ¬u.sign c = true) :
    u.space c = true := by
  unfold letterMark isLetterOrMark at hletter
  unfold number at hnumber
  unfold sign isNonSpaceNonLetterMarkNumber at hsign
  unfold space
  simp only [Bool.not_eq_true, Bool.or_eq_false_iff] at hletter hnumber
  simpa [hletter.1, hletter.2, hnumber] using hsign

/-- A turn of the scanner without a contraction, over the characters. -/
theorem plainWordSize_spanOf (c : Char) :
    u.plainWordSize (spanOf c) (text.map spanOf)
      = if u.letterMark c = true then run u.letterMark (c :: text)
        else if u.lead c = true ∧ text.head?.any u.letterMark = true then
        1 + run u.letterMark text
        else if u.number c = true then 1
        else if c = ' ' ∧ text.head?.any u.sign = true then
        1 + run u.sign text + run lineBreak (text.drop (run u.sign text))
        else if u.sign c = true then
        run u.sign (c :: text) + run lineBreak
          ((c :: text).drop (run u.sign (c :: text)))
        else whitespaceSize ((c :: text).map spanOf)
        (((c :: text).map spanOf).takeWhile fun next =>
          u.isWhitespace next.value) := by
  have hblank : ((spanOf c).value == 0x20) = decide (c = ' ') := by
    rw [Bool.eq_iff_iff, beq_iff_eq, decide_eq_true_iff]
    exact Char.toNat_inj (d := ' ')
  have hblank' : (spanOf c).value = 0x20 ↔ c = ' ' := by
    rw [← beq_iff_eq, hblank, decide_eq_true_iff]
  have hcons : spanOf c :: text.map spanOf = (c :: text).map spanOf := rfl
  unfold plainWordSize
  dsimp only
  rw [hcons, head_any_spanOf, head_any_spanOf, ← map_drop,
    ← map_drop, countWhile_spanOf, countWhile_spanOf, hblank,
    if_congr hblank' rfl rfl]
  change (if (u.letterMark c
        || (u.lead c && text.head?.any u.letterMark)) = true then
      (if u.letterMark c = true then 0 else 1)
        + run u.letterMark
          ((c :: text).drop (if u.letterMark c = true then 0 else 1))
    else if u.number c = true then 1
    else if ((decide (c = ' ') && text.head?.any u.sign)
        || u.sign c) = true then
      (if c = ' ' then 1 else 0)
        + run u.sign ((c :: text).drop (if c = ' ' then 1 else 0))
        + countWhile isNewline (((c :: text).map spanOf).drop
          ((if c = ' ' then 1 else 0)
            + run u.sign ((c :: text).drop (if c = ' ' then 1 else 0))))
    else if u.space c = true then _ else 1) = _
  by_cases hc : u.letterMark c = true
  · simp only [hc, Bool.true_or, if_true, zero_add, drop_zero]
  by_cases hnext : u.lead c = true ∧ text.head?.any u.letterMark = true
  · simp [hc, hnext.1, hnext.2]
  have hskip : ¬(u.letterMark c
      || (u.lead c && text.head?.any u.letterMark)) = true := by
    rw [Bool.or_eq_true, Bool.and_eq_true]
    exact fun h => h.elim hc hnext
  rw [if_neg hskip, if_neg hc, if_neg hnext]
  by_cases hn : u.number c = true
  · rw [if_pos hn, if_pos hn]
  rw [if_neg hn, if_neg hn, ← map_drop, countWhile_spanOf]
  by_cases hafter : c = ' ' ∧ text.head?.any u.sign = true
  · rw [if_pos hafter, if_pos (by simp [hafter.1, hafter.2]),
      if_pos hafter.1, drop_one, tail_cons, add_comm 1,
      drop_succ_cons]
    rfl
  rw [if_neg hafter]
  by_cases hs : u.sign c = true
  · have hother : c ≠ ' ' := by
      rintro rfl
      rw [u.sign_space] at hs
      cases hs
    rw [if_pos hs, if_pos (by rw [hs, Bool.or_true]), if_neg hother,
      zero_add, drop_zero]
    rfl
  have hplain : ¬((decide (c = ' ') && text.head?.any u.sign)
      || u.sign c) = true := by
    rw [Bool.or_eq_true, Bool.and_eq_true, decide_eq_true_iff]
    exact fun h => h.elim hafter hs
  rw [if_neg hplain, if_neg hs, if_pos (u.space_of_others hc hn hs)]

/-- Alternatives tried in order are branches taken in order. -/
theorem ite_or {p : Prop} [Decidable p] {a n : Nat} {s r : Option Nat}
    (h : ¬p → s.or r = some n) :
    (if p then some a else s).or r = some (if p then a else n) := by
  split
  · rfl
  · next hp => exact h hp

/-- The alternatives after the contractions, at the front of a text. -/
theorem first_plain (c : Char) :
    first (alts
        [ seq (opt (one u.lead)) (plus (one u.letterMark)), one u.number,
        seq (opt (one (· == ' '))) (seq (plus (one u.sign))
          (many (one lineBreak))),
        seq (many (one u.space)) (plus (one lineBreak)),
        seq (plus (one u.space)) (notBefore fun c => !u.space c),
        plus (one u.space) ]) (c :: text)
      = some (u.plainWordSize (spanOf c) (text.map spanOf)) := by
  simp only [first_alts_cons, first_alts_nil, or_none]
  rw [first_letters, first_number, first_signs, plainWordSize_spanOf]
  refine ite_or fun hletter => ite_or fun _ => ?_
  refine ite_or fun hnumber => ?_
  refine ite_or fun _ => ite_or fun hsign => ?_
  have hwhite := u.space_of_others hletter hnumber hsign
  refine u.whitespaceSize_spanOf (c :: text) ?_
  rw [run_cons, if_pos hwhite]
  exact Nat.succ_pos _

/-- The scanner's word is the match at the front of the text. -/
theorem first_pattern (c : Char) :
    first u.pattern (c :: text)
      = some (u.wordSize (spanOf c) (text.map spanOf)) := by
  unfold pattern
  rw [first_alts_cons, first_contraction, first_plain]
  unfold wordSize
  have hquote : (spanOf c).value = 0x27 ↔ c = '\'' :=
    Char.toNat_inj (d := '\'')
  rw [if_congr hquote rfl rfl]
  split
  · cases contractionSize (text.map spanOf) with
    | none => rfl
    | some size => rfl
  · rfl

/-- Nothing matches at the end of the text. -/
theorem search_pattern_nil : search u.pattern [] = none := by
  unfold search first pattern
  rfl

-- ============ the text

/-- Every word has a byte. -/
theorem splitWordsFrom_ne_nil :
    ∀ (fuel : Nat) (text : List Char),
      ∀ word ∈ u.splitWordsFrom fuel (text.map spanOf), word ≠ [] := by
  intro fuel
  induction fuel with
  | zero => exact fun text word hword => absurd hword not_mem_nil
  | succ fuel ih =>
    intro text word hword
    cases text with
    | nil => exact absurd hword not_mem_nil
    | cons c text =>
      rw [map_cons, splitWordsFrom] at hword
      rcases mem_cons.mp hword with rfl | hrest
      · obtain ⟨size, hsize⟩ : ∃ size,
            u.wordSize (spanOf c) (text.map spanOf) = size + 1 :=
          ⟨_, (Nat.sub_add_cancel (u.wordSize_pos _ _)).symm⟩
        rw [hsize, take_succ_cons, flatMap_cons]
        exact append_ne_nil_of_left_ne_nil String.utf8EncodeChar_ne_nil _
      · rw [← map_cons, ← map_drop] at hrest
        exact ih _ word hrest

/-- The loop of the scanner is the loop over the matches. -/
theorem splitWordsFrom_eq :
    ∀ (fuel : Nat) (text : List Char), text.length ≤ fuel →
      u.splitWordsFrom fuel (text.map spanOf)
        = (findAllFrom u.pattern (fuel + 1) text).map encode := by
  intro fuel
  induction fuel with
  | zero =>
    intro text hlen
    rw [length_eq_zero_iff.mp (by omega : text.length = 0),
      findAllFrom, search_pattern_nil]
    rfl
  | succ fuel ih =>
    intro text hlen
    cases text with
    | nil =>
      rw [findAllFrom, search_pattern_nil]
      rfl
    | cons c text =>
      have hpos := u.wordSize_pos (spanOf c) (text.map spanOf)
      have hcons : spanOf c :: text.map spanOf = (c :: text).map spanOf := rfl
      rw [findAllFrom, search_of_first (u.first_pattern text c),
        map_cons, splitWordsFrom]
      dsimp only
      rw [hcons, zero_add, Nat.max_eq_left hpos, drop_zero,
        ← map_take, ← map_drop, spanOf_text, ih _ (by
          rw [length_drop, length_cons]
          rw [length_cons] at hlen
          omega)]
      rfl

/-- The splitter returns on every well-formed text, and its words are the
successive leftmost matches of the pattern. They are not empty, and
together they are the text. -/
theorem qwenSplitWords_matches_pattern (text : List Char) :
    ∃ words, u.qwenSplitWords (encode text) = .ok words
      ∧ words = (findAll u.pattern text).map encode
      ∧ words.flatten = encode text
      ∧ ∀ word ∈ words, word ≠ [] := by
  refine ⟨u.splitWordsFrom text.length (text.map spanOf), ?_, ?_, ?_, ?_⟩
  · unfold qwenSplitWords
    rw [utf8Codepoints_encode, Except.map, length_map]
  · exact u.splitWordsFrom_eq text.length text (Nat.le_refl _)
  · rw [u.splitWordsFrom_flatten _ _ (by rw [length_map]), spanOf_text]
  · exact u.splitWordsFrom_ne_nil _ text

end UnicodeTables

end Ginfer.Frontend
