/-
JSON texts, written and read back.

`Text` is the grammar of texts with a gap behind every comma and colon,
over any writer of null, booleans, numbers and strings. Laws of a JSON
library are hypotheses elsewhere; the writer and the reader here meet
them, so that nothing rests on laws no library could have: the reader
reads every text of the grammar (`parse_text`), and the writer writes one
without gaps (`dump_text`). A floating-point number has the digits of its
bits in front of its point; all else is the text everyone writes.
-/
import Ginfer.Lib.Json
import Mathlib.Data.List.Forall2

namespace Ginfer.Lib.Json

open List
open Option hiding any_eq_false map_map

-- ============ the grammar

/-- White space between tokens. -/
def isBlank (b : UInt8) : Bool :=
  b == 0x20 || b == 0x09 || b == 0x0a || b == 0x0d

/-- No array and no object. -/
def isAtom : Json → Bool
  | array _ => false
  | object _ => false
  | _ => true

/-- What a stretch of a text stands for. -/
inductive Piece where
  | value (v : Json)
  | items (vs : List Json)
  | member (m : List UInt8 × Json)
  | members (ms : List (List UInt8 × Json))

/-- The stretches of a text. -/
inductive Text (dump : Json → List UInt8) : Piece → List UInt8 → Prop where
  | atom (v : Json) (h : v.isAtom = true) : Text dump (.value v) (dump v)
  | noItems : Text dump (.value (array [])) [0x5b, 0x5d]
  | array {vs : List Json} {t : List UInt8} (h : Text dump (.items vs) t) :
      Text dump (.value (array vs)) (0x5b :: (t ++ [0x5d]))
  | noMembers : Text dump (.value (object [])) [0x7b, 0x7d]
  | object {ms : List (List UInt8 × Json)} {t : List UInt8}
      (h : Text dump (.members ms) t) :
      Text dump (.value (ofMembers ms)) (0x7b :: (t ++ [0x7d]))
  | item {v : Json} {t : List UInt8} (h : Text dump (.value v) t) :
      Text dump (.items [v]) t
  | items {v : Json} {vs : List Json} {t gap ts : List UInt8}
      (h : Text dump (.value v) t) (hgap : ∀ b ∈ gap, isBlank b = true)
      (hrest : Text dump (.items vs) ts) :
      Text dump (.items (v :: vs)) (t ++ 0x2c :: (gap ++ ts))
  | member {key : List UInt8} {v : Json} {gap t : List UInt8}
      (hgap : ∀ b ∈ gap, isBlank b = true) (h : Text dump (.value v) t) :
      Text dump (.member (key, v)) (dump (string key) ++ 0x3a :: (gap ++ t))
  | last {m : List UInt8 × Json} {t : List UInt8}
      (h : Text dump (.member m) t) : Text dump (.members [m]) t
  | members {m : List UInt8 × Json} {ms : List (List UInt8 × Json)}
      {t gap ts : List UInt8} (h : Text dump (.member m) t)
      (hgap : ∀ b ∈ gap, isBlank b = true)
      (hrest : Text dump (.members ms) ts) :
      Text dump (.members (m :: ms)) (t ++ 0x2c :: (gap ++ ts))

namespace Text

variable {dump : Json → List UInt8} {gap : List UInt8}
  (hgap : ∀ b ∈ gap, isBlank b = true)

include hgap

theorem joinedItems {vs : List Json} {ts : List (List UInt8)}
    (h : Forall₂ (fun v t => Text dump (.value v) t) vs ts) :
    Text dump (.value (.array vs))
      (0x5b :: ((0x2c :: gap).intercalate ts ++ [0x5d])) := by
  cases h with
  | nil => exact noItems
  | @cons v t vs ts hv hvs =>
    refine array ?_
    induction hvs generalizing v t with
    | nil => simpa using item hv
    | @cons v' t' vs ts hv' hvs ih =>
      rw [intercalate_cons_cons]
      simpa using items hv hgap (ih hv')

theorem joinedMembers {ms : List (List UInt8 × Json)} {ts : List (List UInt8)}
    (h : Forall₂ (fun m t => Text dump (.member m) t) ms ts) :
    Text dump (.value (ofMembers ms))
      (0x7b :: ((0x2c :: gap).intercalate ts ++ [0x7d])) := by
  cases h with
  | nil => exact noMembers
  | @cons m t ms ts hm hms =>
    refine object ?_
    induction hms generalizing m t with
    | nil => simpa using last hm
    | @cons m' t' ms ts hm' hms ih =>
      rw [intercalate_cons_cons]
      simpa using members hm hgap (ih hm')

end Text

-- ============ the writer

/-- A number in decimal. -/
def digits (n : Nat) : List UInt8 :=
  (Nat.toDigits 10 n).map fun c => UInt8.ofNat c.toNat

/-- A hexadecimal digit. -/
def hexDigit (n : Nat) : UInt8 := UInt8.ofNat (if n < 10 then 48 + n else 87 + n)

/-- A byte of a string. -/
def escape (b : UInt8) : List UInt8 :=
  if b = 0x22 ∨ b = 0x5c then [0x5c, b]
  else if b < 0x20 then
    [0x5c, 0x75, 0x30, 0x30, hexDigit (b.toNat / 16), hexDigit (b.toNat % 16)]
  else [b]

/-- A string and its quotes. -/
def quoted (s : List UInt8) : List UInt8 := 0x22 :: (s.flatMap escape ++ [0x22])

mutual

/-- The text of a value. -/
def dump : Json → List UInt8
  | null => [0x6e, 0x75, 0x6c, 0x6c]
  | boolean true => [0x74, 0x72, 0x75, 0x65]
  | boolean false => [0x66, 0x61, 0x6c, 0x73, 0x65]
  | integer (.ofNat n) => digits n
  | integer (.negSucc n) => 0x2d :: digits (n + 1)
  | float bits => digits bits.toNat ++ [0x2e, 0x30]
  | string s => quoted s
  | array items => 0x5b :: ([0x2c].intercalate (dumpItems items) ++ [0x5d])
  | object members =>
    0x7b :: ([0x2c].intercalate (dumpMembers members) ++ [0x7d])

/-- The items of an array. -/
def dumpItems : List Json → List (List UInt8)
  | [] => []
  | v :: rest => dump v :: dumpItems rest

/-- The members of an object. -/
def dumpMembers : List (List UInt8 × Json) → List (List UInt8)
  | [] => []
  | (key, v) :: rest => (quoted key ++ 0x3a :: dump v) :: dumpMembers rest

end

theorem foldl_insert_sorted (ms : List (List UInt8 × Json)) :
    ∀ map : List (List UInt8 × Json), Sorted (map ++ ms) →
      ms.foldl (fun map m => insert m.1 m.2 map) map = map ++ ms := by
  have hlast : ∀ (m : List UInt8 × Json) (map : List (List UInt8 × Json)),
      (∀ x ∈ map, x.1 < m.1) → insert m.1 m.2 map = map ++ [m] := by
    intro m map
    induction map with
    | nil => exact fun _ => rfl
    | cons x map ih =>
      intro h
      have hlt := h x (.head _)
      rw [insert, if_neg fun heq => List.lt_irrefl _ (heq ▸ hlt),
        if_neg (List.lt_asymm hlt), ih fun y hy => h y (.tail _ hy)]
      rfl
  induction ms with
  | nil => exact fun map _ => (append_nil map).symm
  | cons m ms ih =>
    intro map hsorted
    have hbefore := (pairwise_append.mp hsorted).2.2
    rw [foldl_cons, hlast m map fun x hx => hbefore x hx m (.head _),
      ih _ (by rwa [append_assoc]), append_assoc]
    rfl

mutual

theorem dump_text : ∀ {v : Json}, v.Canonical → Text dump (.value v) (dump v)
  | null, _ => .atom _ rfl
  | boolean _, _ => .atom _ rfl
  | integer _, _ => .atom _ rfl
  | float _, _ => .atom _ rfl
  | string _, _ => .atom _ rfl
  | .array items, h => by
    have hitems : ∀ v ∈ items, v.Canonical := by
      cases h with
      | array _ h => exact h
    rw [dump]
    exact Text.joinedItems (List.forall_mem_nil _) (dumpItems_text hitems)
  | .object members, h => by
    obtain ⟨hsorted, hmembers⟩ :
        Sorted members ∧ ∀ m ∈ members, m.2.Canonical := by
      cases h with
      | object _ hsorted h => exact ⟨hsorted, h⟩
    have hofMembers : ofMembers members = .object members :=
      congrArg Json.object (foldl_insert_sorted members [] hsorted)
    rw [dump, ← hofMembers]
    exact Text.joinedMembers (List.forall_mem_nil _)
      (dumpMembers_text hmembers)

theorem dumpItems_text : ∀ {items : List Json}, (∀ v ∈ items, v.Canonical) →
    Forall₂ (fun v t => Text dump (.value v) t) items (dumpItems items)
  | [], _ => .nil
  | _ :: _, h => .cons (dump_text (h _ (.head _)))
    (dumpItems_text fun w hw => h w (.tail _ hw))

theorem dumpMembers_text : ∀ {members : List (List UInt8 × Json)},
    (∀ m ∈ members, m.2.Canonical) →
    Forall₂ (fun m t => Text dump (.member m) t) members (dumpMembers members)
  | [], _ => .nil
  | (_, _) :: _, h => .cons
    (@Text.member dump _ _ [] _ (List.forall_mem_nil _)
      (dump_text (h _ (.head _))))
    (dumpMembers_text fun m hm => h m (.tail _ hm))

end

-- ============ the reader

/-- The value of a hexadecimal digit. -/
def hexValue (b : UInt8) : Nat :=
  if b < 0x3a then b.toNat - 48 else b.toNat - 87

/-- A string up to its closing quote, and what follows. -/
def readString : List UInt8 → Option (List UInt8 × List UInt8)
  | [] => none
  | b :: rest =>
    if b = 0x22 then some ([], rest)
    else if b = 0x5c then
      match rest with
      | 0x75 :: 0x30 :: 0x30 :: high :: low :: rest =>
        (readString rest).map fun (s, rest) =>
          (UInt8.ofNat (16 * hexValue high + hexValue low) :: s, rest)
      | c :: rest => (readString rest).map fun (s, rest) => (c :: s, rest)
      | [] => none
    else (readString rest).map fun (s, rest) => (b :: s, rest)

/-- A byte of a name or a number. -/
def isWord (b : UInt8) : Bool :=
  (0x61 ≤ b && b ≤ 0x7a) || (0x30 ≤ b && b ≤ 0x39) || b == 0x2d || b == 0x2e

/-- A decimal number. -/
def readDigits (word : List UInt8) : Option Nat :=
  if word.isEmpty || word.any fun b => b < 0x30 || 0x39 < b then none
  else some (Nat.ofDigitChars 10 (word.map fun b => Char.ofNat b.toNat) 0)

/-- The value of a name or a number. -/
def wordValue (word : List UInt8) : Option Json :=
  if word = dump null then some null
  else if word = dump (boolean true) then some (boolean true)
  else if word = dump (boolean false) then some (boolean false)
  else if word.head? = some 0x2d then
    (readDigits word.tail).map fun n => integer (-n)
  else if 0x2e ∈ word then
    (readDigits (word.takeWhile (· != 0x2e))).map fun n => float (.ofNat n)
  else (readDigits word).map fun n => integer n

/-- The text behind white space. -/
def skip (text : List UInt8) : List UInt8 := text.dropWhile isBlank

section

variable {α : Type} (one : List UInt8 → Option (α × List UInt8))

/-- Some elements with commas between them, up to a closing byte. -/
def readSeq (close : UInt8) : Nat → List UInt8 → Option (List α × List UInt8)
  | 0, _ => none
  | fuel + 1, text =>
    match one text with
    | none => none
    | some (a, rest) =>
      match skip rest with
      | [] => none
      | b :: rest =>
        if b = close then some ([a], rest)
        else if b = 0x2c then
          (readSeq close fuel (skip rest)).map fun (as, rest) => (a :: as, rest)
        else none

/-- The elements between brackets, if there are any. -/
def readList (close : UInt8) (fuel : Nat) (text : List UInt8) :
    Option (List α × List UInt8) :=
  if (skip text).head? = some close then some ([], (skip text).tail)
  else readSeq one close fuel (skip text)

/-- A key, a colon and a value. -/
def readMember (text : List UInt8) :
    Option ((List UInt8 × α) × List UInt8) :=
  if text.head? = some 0x22 then
    match readString text.tail with
    | none => none
    | some (key, rest) =>
      if (skip rest).head? = some 0x3a then
        (one (skip (skip rest).tail)).map fun (a, rest) => ((key, a), rest)
      else none
  else none

end

/-- A value, and what follows. -/
def read : Nat → List UInt8 → Option (Json × List UInt8)
  | 0, _ => none
  | _ + 1, [] => none
  | fuel + 1, b :: rest =>
    if b = 0x22 then (readString rest).map fun (s, rest) => (string s, rest)
    else if b = 0x5b then
      (readList (read fuel) 0x5d fuel rest).map fun (vs, rest) =>
        (array vs, rest)
    else if b = 0x7b then
      (readList (readMember (read fuel)) 0x7d fuel rest).map fun (ms, rest) =>
        (ofMembers ms, rest)
    else
      (wordValue ((b :: rest).takeWhile isWord)).map fun v =>
        (v, (b :: rest).dropWhile isWord)

/-- The value of a text. -/
def parse (text : List UInt8) : Option Json :=
  match read text.length (skip text) with
  | some (v, rest) => if skip rest = [] then some v else none
  | none => none

-- ============ the strings and the words

theorem readString_escape (b : UInt8) (s : List UInt8) :
    readString (escape b ++ s)
      = (readString s).map fun (t, rest) => (b :: t, rest) := by
  have hhex : ∀ n < 32,
      16 * hexValue (hexDigit (n / 16)) + hexValue (hexDigit (n % 16)) = n := by
    decide
  unfold escape
  split
  case isTrue h =>
    rcases h with rfl | rfl
    · rfl
    · rfl
  case isFalse h =>
    rw [not_or] at h
    split
    case isTrue hlow =>
      have hb := hhex b.toNat (UInt8.lt_iff_toNat_lt.mp hlow)
      show (readString s).map _ = _
      rw [hb, UInt8.ofNat_toNat]
    case isFalse =>
      show readString (b :: s) = _
      rw [readString.eq_def]
      dsimp only
      rw [if_neg h.1, if_neg h.2]

theorem readString_quoted (s rest : List UInt8) :
    readString (s.flatMap escape ++ 0x22 :: rest) = some (s, rest) := by
  induction s with
  | nil => exact readString.eq_def _
  | cons b s ih =>
    rw [flatMap_cons, append_assoc, readString_escape, ih]
    rfl

theorem readString_length {text : List UInt8} :
    ∀ {s rest : List UInt8}, readString text = some (s, rest) →
      s.length < text.length := by
  have hmore : ∀ {b : UInt8} {more s rest : List UInt8},
      (readString more).map (fun (s, rest) => (b :: s, rest)) = some (s, rest) →
      (∀ {s rest : List UInt8}, readString more = some (s, rest) →
        s.length < more.length) → s.length ≤ more.length := by
    intro b more s rest h ih
    obtain ⟨⟨t, r⟩, hread, heq⟩ := map_eq_some_iff.mp h
    obtain ⟨rfl, -⟩ := Prod.mk.inj heq
    exact ih hread
  fun_induction readString text with
  | case1 => exact nofun
  | case2 rest =>
    intro s r h
    obtain ⟨rfl, -⟩ := Prod.mk.inj (some.inj h)
    exact Nat.succ_pos _
  | case3 high low rest _ ih =>
    intro s r h
    have hle := hmore h ih
    simp only [length_cons]
    omega
  | case4 c rest _ _ ih =>
    intro s r h
    have hle := hmore h ih
    simp only [length_cons]
    omega
  | case5 => exact nofun
  | case6 b rest _ _ ih =>
    intro s r h
    exact Nat.lt_succ_of_le (hmore h ih)

theorem toDigits_range {n : Nat} {c : Char} (h : c ∈ Nat.toDigits 10 n) :
    48 ≤ c.toNat ∧ c.toNat ≤ 57 :=
  Char.isDigit_iff_toNat.mp
    (Nat.isDigit_of_mem_toDigits (by decide) (by decide) h)

theorem digits_range {n : Nat} {b : UInt8} (h : b ∈ digits n) :
    48 ≤ b.toNat ∧ b.toNat ≤ 57 := by
  obtain ⟨c, hc, rfl⟩ := mem_map.mp h
  have hdigit := toDigits_range hc
  rw [UInt8.toNat_ofNat', Nat.mod_eq_of_lt (by omega)]
  exact hdigit

theorem readDigits_digits (n : Nat) : readDigits (digits n) = some n := by
  have hany : (digits n).any (fun b => b < 0x30 || 0x39 < b) = false := by
    rw [any_eq_false]
    intro b hb
    have hrange := digits_range hb
    simp only [Bool.or_eq_true, decide_eq_true_eq, UInt8.lt_iff_toNat_lt,
      UInt8.reduceToNat]
    omega
  have hchars : (digits n).map (fun b => Char.ofNat b.toNat)
      = Nat.toDigits 10 n := by
    unfold digits
    rw [map_map]
    refine (map_congr_left fun c hc => ?_).trans (map_id _)
    have hdigit := toDigits_range hc
    dsimp only [Function.comp]
    rw [UInt8.toNat_ofNat', Nat.mod_eq_of_lt (by omega), Char.ofNat_toNat]
    rfl
  have hne : (digits n).isEmpty = false := by
    simp [digits, Nat.toDigits_ne_nil]
  unfold readDigits
  rw [hany, hne, hchars, Nat.ofDigitChars_toDigits (by decide) (by decide)]
  rfl

theorem digits_ne_nil (n : Nat) : digits n ≠ [] := by
  simp [digits, Nat.toDigits_ne_nil]

/-- A word that begins with a byte below the letters is a number. -/
theorem wordValue_number {b : UInt8} {rest : List UInt8} (h : b.toNat ≤ 57) :
    wordValue (b :: rest)
      = if b = 0x2d then (readDigits rest).map fun n => integer (-n)
        else if 0x2e ∈ b :: rest then
          (readDigits ((b :: rest).takeWhile (· != 0x2e))).map fun n =>
            float (.ofNat n)
        else (readDigits (b :: rest)).map fun n => integer n := by
  have hname : ∀ (c : UInt8) (name : List UInt8), 57 < c.toNat →
      b :: rest ≠ c :: name := by
    rintro c name hc heq
    rw [(cons.inj heq).1] at h
    omega
  unfold wordValue
  rw [dump, dump, dump, if_neg (hname _ _ (by decide)),
    if_neg (hname _ _ (by decide)), if_neg (hname _ _ (by decide))]
  simp only [head?_cons, some.injEq, tail_cons]

theorem isWord_digit {b : UInt8} (h : 48 ≤ b.toNat ∧ b.toNat ≤ 57) :
    isWord b = true ∧ b ≠ 0x2d ∧ b ≠ 0x2e := by
  refine ⟨?_, ?_, ?_⟩
  · simp [isWord, UInt8.le_iff_toNat_le, h]
  · rintro rfl
    exact absurd h.1 (by decide)
  · rintro rfl
    exact absurd h.1 (by decide)

variable {v : Json}

/-- A value that is no list and no string is written as a word. -/
theorem wordValue_dump (hatom : v.isAtom = true)
    (hstring : v.isString = false) :
    (∀ b ∈ dump v, isWord b = true) ∧ dump v ≠ []
      ∧ wordValue (dump v) = some v := by
  have hwords : ∀ n, ∀ b ∈ digits n, isWord b = true :=
    fun n b hb => (isWord_digit (digits_range hb)).1
  cases v with
  | null => exact ⟨all_eq_true.mp rfl, by decide, rfl⟩
  | boolean b => cases b <;> exact ⟨all_eq_true.mp rfl, by decide, rfl⟩
  | integer n =>
    cases n with
    | ofNat n =>
      have hnopoint : 0x2e ∉ digits n := fun h =>
        (isWord_digit (digits_range h)).2.2 rfl
      rw [dump]
      refine ⟨hwords n, digits_ne_nil n, ?_⟩
      obtain ⟨d, ds, heq⟩ := exists_cons_of_ne_nil (digits_ne_nil n)
      have hd := digits_range (heq ▸ mem_cons_self : d ∈ digits n)
      rw [heq] at hnopoint ⊢
      rw [wordValue_number hd.2, if_neg (isWord_digit hd).2.1,
        if_neg hnopoint, ← heq, readDigits_digits]
      rfl
    | negSucc n =>
      rw [dump]
      refine ⟨fun b hb => ?_, cons_ne_nil _ _, ?_⟩
      · rcases mem_cons.mp hb with rfl | hb
        · decide
        · exact hwords _ b hb
      · rw [wordValue_number (by decide), if_pos rfl, readDigits_digits]
        rfl
  | float bits =>
    rw [dump]
    refine ⟨fun b hb => ?_, by simp, ?_⟩
    · rcases mem_append.mp hb with hb | hb
      · exact hwords _ b hb
      · exact all_eq_true.mp (rfl : [0x2e, 0x30].all isWord = true) b hb
    · have htake : (digits bits.toNat ++ [0x2e, 0x30]).takeWhile (· != 0x2e)
          = digits bits.toNat := by
        rw [takeWhile_append_of_pos fun b hb =>
          bne_iff_ne.mpr (isWord_digit (digits_range hb)).2.2]
        exact append_nil _
      have hmem : 0x2e ∈ digits bits.toNat ++ [0x2e, 0x30] := by simp
      obtain ⟨d, ds, heq⟩ := exists_cons_of_ne_nil (digits_ne_nil bits.toNat)
      have hd := digits_range (heq ▸ mem_cons_self : d ∈ digits bits.toNat)
      rw [heq, cons_append] at htake hmem ⊢
      rw [wordValue_number hd.2, if_neg (isWord_digit hd).2.1, if_pos hmem,
        htake, ← heq, readDigits_digits, map_some, UInt64.ofNat_toNat]
  | string s => cases hstring
  | array items => cases hatom
  | object members => cases hatom

-- ============ the reader reads the grammar

/-- What a name or a number ends at. -/
def Stops (rest : List UInt8) : Prop := ∀ b ∈ rest.head?, isWord b = false

/-- It begins with no white space and no closing bracket. -/
def Solid (t : List UInt8) : Prop :=
  ∃ b rest, t = b :: rest ∧ isBlank b = false ∧ b ≠ 0x5d ∧ b ≠ 0x7d

theorem Solid.append {t : List UInt8} (h : Solid t) (more : List UInt8) :
    Solid (t ++ more) := by
  obtain ⟨b, rest, rfl, hb⟩ := h
  exact ⟨b, rest ++ more, rfl, hb⟩

theorem Solid.skip {t gap : List UInt8} (h : Solid t)
    (hgap : ∀ b ∈ gap, isBlank b = true) : skip (gap ++ t) = t := by
  obtain ⟨b, rest, rfl, hb, -⟩ := h
  unfold Json.skip
  rw [dropWhile_append_of_pos hgap, dropWhile_cons_of_neg (by simp [hb])]

section

variable {α : Type} {one : List UInt8 → Option (α × List UInt8)}
  {close : UInt8} {fuel : Nat} {a : α} {t ts gap : List UInt8} {as : List α}

/-- A text is read, in front of anything a name can end at. -/
def Reads (one : List UInt8 → Option (α × List UInt8)) (a : α)
    (t : List UInt8) : Prop :=
  Solid t ∧ ∀ rest, Stops rest → one (t ++ rest) = some (a, rest)

/-- Some elements are read up to their closing byte. -/
def ReadsSeq (one : List UInt8 → Option (α × List UInt8)) (close : UInt8)
    (fuel : Nat) (as : List α) (t : List UInt8) : Prop :=
  Solid t ∧ ∀ rest, readSeq one close fuel (t ++ close :: rest)
    = some (as, rest)

/-- There is fuel for a byte. -/
theorem fuel_cons {b : UInt8} (h : (b :: t).length ≤ fuel) :
    ∃ n, n + 1 = fuel :=
  Nat.exists_add_one_eq.mpr (Nat.lt_of_lt_of_le (Nat.succ_pos _) h)

theorem Reads.last (h : Reads one a t) (hclose : isWord close = false)
    (hsolid : isBlank close = false) (hfuel : t.length ≤ fuel) :
    ReadsSeq one close fuel [a] t := by
  refine ⟨h.1, fun rest => ?_⟩
  obtain ⟨b, _, rfl, -⟩ := h.1
  obtain ⟨fuel, rfl⟩ := fuel_cons hfuel
  rw [readSeq, h.2 _ (by simpa [Stops] using hclose)]
  dsimp only
  have hskip : skip (close :: rest) = close :: rest :=
    dropWhile_cons_of_neg (by simp [hsolid])
  rw [hskip]
  dsimp only
  rw [if_pos rfl]

theorem Reads.more (h : Reads one a t) (hclose : close ≠ 0x2c)
    (hgap : ∀ b ∈ gap, isBlank b = true)
    (hrest : ∀ n, ts.length ≤ n → ReadsSeq one close n as ts)
    (hfuel : (t ++ 0x2c :: (gap ++ ts)).length ≤ fuel) :
    ReadsSeq one close fuel (a :: as) (t ++ 0x2c :: (gap ++ ts)) := by
  refine ⟨h.1.append _, fun rest => ?_⟩
  simp only [length_append, length_cons] at hfuel
  obtain ⟨fuel, rfl⟩ := Nat.exists_add_one_eq.mpr (show 0 < fuel by omega)
  have hread := hrest fuel (by omega)
  rw [append_assoc, cons_append, readSeq, h.2 _ (by simp [Stops]; decide)]
  dsimp only
  have hskip : skip (0x2c :: (gap ++ ts ++ close :: rest))
      = 0x2c :: (gap ++ ts ++ close :: rest) := rfl
  rw [hskip]
  dsimp only
  rw [if_neg hclose.symm, if_pos rfl, append_assoc,
    (hread.1.append _).skip hgap, hread.2]
  rfl

theorem readMember_quoted (key text : List UInt8) :
    readMember one (quoted key ++ 0x3a :: text)
      = (one (skip text)).map fun (a, rest) => ((key, a), rest) := by
  have hread : readString (key.flatMap escape ++ [0x22] ++ 0x3a :: text)
      = some (key, 0x3a :: text) := by
    rw [append_assoc]
    exact readString_quoted key _
  unfold readMember quoted
  rw [cons_append, tail_cons, hread, if_pos (head?_cons ..)]
  rfl

theorem ReadsSeq.list (h : ReadsSeq one close fuel as t)
    (hclose : close = 0x5d ∨ close = 0x7d) (rest : List UInt8) :
    readList one close fuel (t ++ close :: rest) = some (as, rest) := by
  have hskip := (h.1.append (close :: rest)).skip
    (List.forall_mem_nil (fun b => isBlank b = true))
  rw [nil_append] at hskip
  obtain ⟨b, more, rfl, -, hsquare, hcurly⟩ := h.1
  unfold readList
  rw [hskip, if_neg, h.2]
  rintro heq
  obtain rfl : b = close := some.inj heq
  rcases hclose with rfl | rfl
  · exact hsquare rfl
  · exact hcurly rfl

end

/-- The value a word has is read from it, up to where it stops. -/
theorem read_word (hatom : v.isAtom = true)
    (hstring : v.isString = false) (fuel : Nat) :
    Reads (read (fuel + 1)) v (dump v) := by
  obtain ⟨hword, hne, hvalue⟩ := wordValue_dump hatom hstring
  obtain ⟨b, t, heq⟩ := exists_cons_of_ne_nil hne
  rw [heq] at hword hvalue ⊢
  have hb := hword b (.head _)
  have hother : ∀ c : UInt8, isWord c = false → b ≠ c := by
    rintro c hc rfl
    exact Bool.false_ne_true (hc.symm.trans hb)
  have hblank : isBlank b = false := by
    rw [Bool.eq_false_iff]
    intro h
    simp only [isBlank, Bool.or_eq_true, beq_iff_eq] at h
    rcases h with ((h | h) | h) | h <;> exact hother _ (by decide) h
  refine ⟨⟨b, t, rfl, hblank, hother _ (by decide), hother _ (by decide)⟩,
    fun rest hrest => ?_⟩
  have htake : rest.takeWhile isWord = [] ∧ rest.dropWhile isWord = rest := by
    cases rest with
    | nil => exact ⟨rfl, rfl⟩
    | cons c rest =>
      have hc := hrest c rfl
      exact ⟨takeWhile_cons_of_neg (by simp [hc]),
        dropWhile_cons_of_neg (by simp [hc])⟩
  rw [cons_append, read, if_neg (hother _ (by decide)),
    if_neg (hother _ (by decide)), if_neg (hother _ (by decide)),
    ← cons_append, takeWhile_append_of_pos hword,
    dropWhile_append_of_pos hword, htake.1, htake.2, append_nil, hvalue]
  rfl

/-- What is read of a stretch of the grammar. -/
def ReadsPiece : Piece → List UInt8 → Prop
  | .value v, t => ∀ fuel, t.length ≤ fuel → Reads (read fuel) v t
  | .items vs, t => ∀ fuel seqFuel, t.length ≤ fuel → t.length ≤ seqFuel →
    ReadsSeq (read fuel) 0x5d seqFuel vs t
  | .member m, t => ∀ fuel, t.length ≤ fuel →
    Reads (readMember (read fuel)) m t
  | .members ms, t => ∀ fuel seqFuel, t.length ≤ fuel → t.length ≤ seqFuel →
    ReadsSeq (readMember (read fuel)) 0x7d seqFuel ms t

theorem Text.reads {piece : Piece} {t : List UInt8}
    (h : Text dump piece t) : ReadsPiece piece t := by
  have hlist : ∀ {t : List UInt8} {fuel : Nat} (b close : UInt8),
      (b :: (t ++ [close])).length ≤ fuel + 1 → t.length ≤ fuel := by
    intro t fuel b close h
    simp only [length_cons, length_append, length_nil] at h
    omega
  induction h with
  | atom v hatom =>
    intro fuel hfuel
    by_cases hstring : v.isString = true
    · obtain ⟨s, rfl⟩ : ∃ s, v = .string s := by
        cases v <;> first | exact ⟨_, rfl⟩ | cases hstring
      refine ⟨⟨0x22, _, rfl, rfl, by decide, by decide⟩, fun rest _ => ?_⟩
      cases fuel with
      | zero => exact absurd hfuel (by simp [dump, quoted])
      | succ fuel =>
        rw [dump, quoted, cons_append, append_assoc, read, if_pos rfl]
        show (readString (s.flatMap escape ++ 0x22 :: rest)).map _ = _
        rw [readString_quoted]
        rfl
    · rw [Bool.not_eq_true] at hstring
      obtain ⟨-, hne, -⟩ := wordValue_dump hatom hstring
      obtain ⟨fuel, rfl⟩ := Nat.exists_add_one_eq.mpr
        (Nat.lt_of_lt_of_le (length_pos_iff.mpr hne) hfuel)
      exact read_word hatom hstring fuel
  | noItems =>
    intro fuel hfuel
    obtain ⟨fuel, rfl⟩ := fuel_cons hfuel
    exact ⟨⟨0x5b, _, rfl, rfl, by decide, by decide⟩, fun _ _ => rfl⟩
  | @array vs t _ ih =>
    intro fuel hfuel
    obtain ⟨fuel, rfl⟩ := fuel_cons hfuel
    refine ⟨⟨0x5b, _, rfl, rfl, by decide, by decide⟩, fun rest _ => ?_⟩
    have hle := hlist _ _ hfuel
    rw [cons_append, append_assoc, read, if_neg (by decide), if_pos rfl]
    show (readList _ _ _ (t ++ 0x5d :: rest)).map _ = _
    rw [(ih fuel fuel hle hle).list (.inl rfl)]
    rfl
  | noMembers =>
    intro fuel hfuel
    obtain ⟨fuel, rfl⟩ := fuel_cons hfuel
    exact ⟨⟨0x7b, _, rfl, rfl, by decide, by decide⟩, fun _ _ => rfl⟩
  | @object ms t _ ih =>
    intro fuel hfuel
    obtain ⟨fuel, rfl⟩ := fuel_cons hfuel
    refine ⟨⟨0x7b, _, rfl, rfl, by decide, by decide⟩, fun rest _ => ?_⟩
    have hle := hlist _ _ hfuel
    rw [cons_append, append_assoc, read, if_neg (by decide), if_neg (by decide),
      if_pos rfl]
    show (readList _ _ _ (t ++ 0x7d :: rest)).map _ = _
    rw [(ih fuel fuel hle hle).list (.inr rfl)]
    rfl
  | @item v t _ ih =>
    intro fuel seqFuel hfuel hseq
    exact (ih fuel hfuel).last rfl rfl hseq
  | @items v vs t gap ts _ hgap _ ih ihrest =>
    intro fuel seqFuel hfuel hseq
    simp only [length_append, length_cons] at hfuel
    exact (ih fuel (by omega)).more (by decide) hgap
      (fun n => ihrest fuel n (by omega)) hseq
  | @member key v gap t hgap _ ih =>
    intro fuel hfuel
    refine ⟨⟨0x22, _, rfl, rfl, by decide, by decide⟩, fun rest hrest => ?_⟩
    simp only [length_append, length_cons] at hfuel
    have hreads := ih fuel (by omega)
    rw [dump, append_assoc, cons_append, append_assoc, readMember_quoted,
      (hreads.1.append _).skip hgap, hreads.2 rest hrest]
    rfl
  | @last m t _ ih =>
    intro fuel seqFuel hfuel hseq
    exact (ih fuel hfuel).last rfl rfl hseq
  | @members m ms t gap ts _ hgap _ ih ihrest =>
    intro fuel seqFuel hfuel hseq
    simp only [length_append, length_cons] at hfuel
    exact (ih fuel (by omega)).more (by decide) hgap
      (fun n => ihrest fuel n (by omega)) hseq

-- ============ the laws

theorem parse_text {t : List UInt8}
    (h : Text dump (.value v) t) : parse t = some v := by
  obtain ⟨hsolid, hreads⟩ := h.reads t.length (Nat.le_refl _)
  have hread := hreads [] (by simp [Stops])
  have hskip := hsolid.skip (List.forall_mem_nil (fun b => isBlank b = true))
  rw [append_nil] at hread
  rw [nil_append] at hskip
  unfold parse
  rw [hskip, hread]
  rfl

theorem parse_dump (h : v.Canonical) : parse (dump v) = some v :=
  parse_text (dump_text h)

theorem readSeq_all {α : Type} {one : List UInt8 → Option (α × List UInt8)}
    {P : α → Prop} (hone : ∀ t a r, one t = some (a, r) → P a)
    (close : UInt8) (fuel : Nat) : ∀ {t r : List UInt8} {as : List α},
      readSeq one close fuel t = some (as, r) → ∀ a ∈ as, P a := by
  induction fuel with
  | zero => exact nofun
  | succ fuel ih =>
    intro t r as h
    unfold readSeq at h
    split at h
    · cases h
    · rename_i a rest hread
      split at h
      · cases h
      · split at h
        · obtain ⟨rfl, -⟩ := Prod.mk.inj (some.inj h)
          exact forall_mem_singleton.mpr (hone _ _ _ hread)
        · split at h
          · obtain ⟨⟨bs, r'⟩, hmore, heq⟩ := map_eq_some_iff.mp h
            obtain ⟨rfl, -⟩ := Prod.mk.inj heq
            exact forall_mem_cons.mpr ⟨hone _ _ _ hread, ih hmore⟩
          · cases h

theorem readList_all {α : Type} {one : List UInt8 → Option (α × List UInt8)}
    {P : α → Prop} (hone : ∀ t a r, one t = some (a, r) → P a)
    {close : UInt8} {fuel : Nat} {t r : List UInt8} {as : List α}
    (h : readList one close fuel t = some (as, r)) : ∀ a ∈ as, P a := by
  unfold readList at h
  split at h
  · obtain ⟨rfl, -⟩ := Prod.mk.inj (some.inj h)
    exact List.forall_mem_nil _
  · exact readSeq_all hone close fuel h

theorem wordValue_atom {word : List UInt8}
    (h : wordValue word = some v) : v.Canonical ∧ v.isString = false := by
  unfold wordValue at h
  split_ifs at h
  · cases h
    exact ⟨.null, rfl⟩
  · cases h
    exact ⟨.boolean _, rfl⟩
  · cases h
    exact ⟨.boolean _, rfl⟩
  · obtain ⟨n, -, rfl⟩ := map_eq_some_iff.mp h
    exact ⟨.integer _, rfl⟩
  · obtain ⟨n, -, rfl⟩ := map_eq_some_iff.mp h
    exact ⟨.float _, rfl⟩
  · obtain ⟨n, -, rfl⟩ := map_eq_some_iff.mp h
    exact ⟨.integer _, rfl⟩

/-- Every object that is read is a map ordered by key, and a string is
shorter than its text. -/
theorem read_sound (fuel : Nat) : ∀ {t r : List UInt8} {v : Json},
    read fuel t = some (v, r) →
      v.Canonical ∧ ∀ s, v = string s → s.length < t.length := by
  induction fuel with
  | zero => exact nofun
  | succ fuel ih =>
    intro t r v h
    cases t with
    | nil => cases h
    | cons b rest =>
      unfold read at h
      split_ifs at h
      · obtain ⟨⟨s, r'⟩, hread, heq⟩ := map_eq_some_iff.mp h
        obtain ⟨rfl, -⟩ := Prod.mk.inj heq
        refine ⟨.string s, ?_⟩
        rintro s' heq
        cases heq
        exact Nat.lt_succ_of_lt (readString_length hread)
      · obtain ⟨⟨vs, r'⟩, hread, heq⟩ := map_eq_some_iff.mp h
        obtain ⟨rfl, -⟩ := Prod.mk.inj heq
        exact ⟨.array _ (readList_all (fun _ _ _ h => (ih h).1) hread), nofun⟩
      · obtain ⟨⟨ms, r'⟩, hread, heq⟩ := map_eq_some_iff.mp h
        obtain ⟨rfl, -⟩ := Prod.mk.inj heq
        refine ⟨ofMembers_canonical (readList_all (fun t m r hm => ?_) hread),
          nofun⟩
        unfold readMember at hm
        split_ifs at hm
        · split at hm
          · cases hm
          · split_ifs at hm
            · obtain ⟨⟨w, r''⟩, hw, heq⟩ := map_eq_some_iff.mp hm
              obtain ⟨rfl, -⟩ := Prod.mk.inj heq
              exact (ih hw).1
      · obtain ⟨w, hw, heq⟩ := map_eq_some_iff.mp h
        obtain ⟨rfl, -⟩ := Prod.mk.inj heq
        obtain ⟨hcanonical, hstring⟩ := wordValue_atom hw
        refine ⟨hcanonical, ?_⟩
        rintro s rfl
        cases hstring

theorem parse_sound {t : List UInt8} (h : parse t = some v) :
    v.Canonical ∧ ∀ s, v = string s → s.length < t.length := by
  unfold parse at h
  split at h
  · rename_i v' rest hread
    split at h
    · cases h
      obtain ⟨hcanonical, hlength⟩ := read_sound _ hread
      refine ⟨hcanonical, fun s hs => Nat.lt_of_lt_of_le (hlength s hs) ?_⟩
      exact (dropWhile_sublist isBlank).length_le
    · cases h
  · cases h

end Ginfer.Lib.Json
