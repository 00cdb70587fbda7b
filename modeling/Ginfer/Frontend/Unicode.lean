/-
Unicode text (text/unicode.cpp, third_party/utf8proc).

Reading and writing one character are the library's own two functions,
`utf8proc_iterate` and `utf8proc_encode_char`, branch for branch. What
the library takes from its data tables — the composition of NFC and the
general categories — is a parameter, `UnicodeTables`.

A span is kept with the bytes it stands for instead of their offset and
length: the spans of a text are consecutive, so a `substr` between two
offsets is the bytes of the spans between them.
-/
import Ginfer.Frontend.Text

namespace Ginfer.Frontend

open Ginfer.Lib

-- ============ utf8proc

/-- The general categories the tokenizer tells apart. -/
inductive Category where
  | lu | ll | lt | lm | lo
  | mn | mc | me
  | nd | nl | no
  | zs | zl | zp
  | other

/-- What the library reads from its tables: `utf8proc_map` with
`UTF8PROC_STABLE | UTF8PROC_COMPOSE`, which may fail with a message, and
`utf8proc_category`. -/
structure UnicodeTables where
  mapNfc : Bytes → Except String Bytes
  category : Nat → Category

/-- `utf_cont`. -/
def utfCont (byte : UInt8) : Bool := byte.toNat / 0x40 == 2

/-- `utf8proc_iterate` at a byte: the length and the codepoint of the
character there, `none` for an ill-formed one. -/
def utf8procIterate (lead : UInt8) (rest : Bytes) : Option (Nat × Nat) :=
  let uc := lead.toNat
  if uc < 0x80 then some (1, uc)
  else if uc < 0xc2 ∨ 0xf4 < uc then none
  else if uc < 0xe0 then
    match rest with
    | b₁ :: _ =>
      if !utfCont b₁ then none
      else some (2, uc % 0x20 * 0x40 + b₁.toNat % 0x40)
    | [] => none
  else if uc < 0xf0 then
    match rest with
    | b₁ :: b₂ :: _ =>
      if !utfCont b₁ || !utfCont b₂ then none
      else if uc = 0xed ∧ 0x9f < b₁.toNat then none
      else
        let codepoint := uc % 0x10 * 0x1000 + b₁.toNat % 0x40 * 0x40
          + b₂.toNat % 0x40
        if codepoint < 0x800 then none else some (3, codepoint)
    | _ => none
  else
    match rest with
    | b₁ :: b₂ :: b₃ :: _ =>
      if !utfCont b₁ || !utfCont b₂ || !utfCont b₃ then none
      else if uc = 0xf0 ∧ b₁.toNat < 0x90 then none
      else if uc = 0xf4 ∧ 0x8f < b₁.toNat then none
      else
        some (4, uc % 0x08 * 0x40000 + b₁.toNat % 0x40 * 0x1000
          + b₂.toNat % 0x40 * 0x40 + b₃.toNat % 0x40)
    | _ => none

/-- `utf8proc_encode_char`; the empty string for its zero length. -/
def utf8procEncodeChar (uc : Nat) : Bytes :=
  if uc < 0x80 then [UInt8.ofNat uc]
  else if uc < 0x800 then
    [UInt8.ofNat (0xc0 + uc / 0x40), UInt8.ofNat (0x80 + uc % 0x40)]
  else if uc < 0x10000 then
    [UInt8.ofNat (0xe0 + uc / 0x1000), UInt8.ofNat (0x80 + uc / 0x40 % 0x40),
      UInt8.ofNat (0x80 + uc % 0x40)]
  else if uc < 0x110000 then
    [UInt8.ofNat (0xf0 + uc / 0x40000), UInt8.ofNat (0x80 + uc / 0x1000 % 0x40),
      UInt8.ofNat (0x80 + uc / 0x40 % 0x40),
      UInt8.ofNat (0x80 + uc % 0x40)]
  else []

-- ============ unicode

/-- `CodepointSpan`, with the bytes of the span. -/
structure CodepointSpan where
  value : Nat
  text : Bytes

/-- The loop of `utf8_codepoints`; each turn consumes a byte at least, so
`fuel` never runs out at the length of the text. -/
def utf8CodepointsFrom (context : String) :
    Nat → Bytes → Except Exception (List CodepointSpan)
  | 0, _ => .ok []
  | _ + 1, [] => .ok []
  | fuel + 1, lead :: rest =>
    match utf8procIterate lead rest with
    | none =>
      .error (.invalidArgument
        ("invalid UTF-8 in " ++ context ++ ": Invalid UTF-8 string"))
    | some (length, codepoint) =>
      (utf8CodepointsFrom context fuel ((lead :: rest).drop length)).map
        (⟨codepoint, (lead :: rest).take length⟩ :: ·)

/-- `utf8_codepoints`. -/
def utf8Codepoints (text : Bytes) (context : String) :
    Except Exception (List CodepointSpan) :=
  utf8CodepointsFrom context text.length text

namespace UnicodeTables

/-- `normalize_nfc`. -/
def normalizeNfc (u : UnicodeTables) (text : Bytes) : Except Exception Bytes :=
  match u.mapNfc text with
  | .error message =>
    .error (.invalidArgument
      ("failed to normalize UTF-8 text as NFC: " ++ message))
  | .ok normalized => .ok normalized

/-- `is_letter`. -/
def isLetter (u : UnicodeTables) (codepoint : Nat) : Bool :=
  match u.category codepoint with
  | .lu | .ll | .lt | .lm | .lo => true
  | _ => false

/-- `is_mark`. -/
def isMark (u : UnicodeTables) (codepoint : Nat) : Bool :=
  match u.category codepoint with
  | .mn | .mc | .me => true
  | _ => false

/-- `is_number`. -/
def isNumber (u : UnicodeTables) (codepoint : Nat) : Bool :=
  match u.category codepoint with
  | .nd | .nl | .no => true
  | _ => false

/-- `is_whitespace`. -/
def isWhitespace (u : UnicodeTables) (codepoint : Nat) : Bool :=
  if codepoint = 0x20 ∨ (0x09 ≤ codepoint ∧ codepoint ≤ 0x0d) then true
  else
    match u.category codepoint with
    | .zs | .zl | .zp => true
    | _ => false

end UnicodeTables

end Ginfer.Frontend
