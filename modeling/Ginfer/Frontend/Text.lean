/-
Byte strings and the tokenizer's decode table
(targets/qwen3_6/impl/frontend/{frontend,tokenizer}.cpp).

The output decoder works on bytes: `std::string` is a `List UInt8`, and
the two searches it makes of one — `std::string::find` and the
longest-suffix-that-is-a-prefix scan — are the source's loops over
lengths.

`validUtf8PrefixSize` is the source's hand-written UTF-8 scanner. It has
three ends, kept apart: it returns the size of the whole characters at
the front, it stops early at a character whose bytes are not all there
yet (WITHOUT looking at those that are), and it throws.

The tokenizer's vocabulary is data of the loaded artifact: an ordinary
token is the codepoints of its stored string, an added token its text.
-/
import Ginfer.Lib.Outcome

namespace Ginfer.Frontend

open Ginfer.Lib

-- ============ byte strings

/-- `std::string`. -/
abbrev Bytes := List UInt8

/-- Texts are compared as they are. -/
theorem lawful_bytes : LawfulBEq Bytes := inferInstance

/-- `std::string::find`: where `pattern` first occurs. -/
def find (text pattern : Bytes) : Option Nat :=
  (List.range (text.length + 1)).find? fun i =>
    pattern.isPrefixOf (text.drop i)

/-- The downward loop of `longest_suffix_prefix` from `size` on. -/
def suffixPrefixFrom (text marker : Bytes) (allowComplete : Bool) : Nat → Nat
  | 0 => 0
  | size + 1 =>
    if !allowComplete && size + 1 == marker.length then
      suffixPrefixFrom text marker allowComplete size
    else if text.drop (text.length - (size + 1))
        = marker.take (size + 1) then size + 1
    else suffixPrefixFrom text marker allowComplete size

/-- `longest_suffix_prefix`: the longest suffix of `text` that is a
prefix of `marker`, the whole marker excepted unless `allowComplete`. -/
def longestSuffixPrefix (text marker : Bytes) (allowComplete : Bool) :
    Nat :=
  suffixPrefixFrom text marker allowComplete (min text.length marker.length)

/-- An ASCII string literal. -/
def ascii (s : String) : Bytes := s.toList.map fun c => UInt8.ofNat c.toNat

/-- `std::isspace` of the C locale. -/
def isSpace (b : UInt8) : Bool :=
  b == 0x20 || (decide (0x09 ≤ b) && decide (b ≤ 0x0d))

/-- `kThinkClose`, the bytes of `</think>`. -/
def thinkClose : Bytes := [0x3c, 0x2f, 0x74, 0x68, 0x69, 0x6e, 0x6b, 0x3e]

/-- The bytes of a text. -/
def encode (text : List Char) : Bytes := text.flatMap String.utf8EncodeChar

/-- The bytes of U+FFFD. -/
def replacementCharacter : Bytes := [0xef, 0xbf, 0xbd]

-- ============ UTF-8

/-- What a leading byte announces: the character's length, the bits the
lead contributes, and the least codepoint of that length. -/
def utf8Lead (lead : Nat) : Option (Nat × Nat × Nat) :=
  if lead ≤ 0x7f then some (1, lead, 0)
  else if 0xc2 ≤ lead ∧ lead ≤ 0xdf then some (2, lead % 0x20, 0x80)
  else if 0xe0 ≤ lead ∧ lead ≤ 0xef then some (3, lead % 0x10, 0x800)
  else if 0xf0 ≤ lead ∧ lead ≤ 0xf4 then some (4, lead % 0x08, 0x10000)
  else none

/-- The continuation loop: `bytes` are the continuation bytes, folded
into the codepoint six bits at a time. -/
def utf8Continue (codepoint : Nat) : Bytes → Option Nat
  | [] => some codepoint
  | b :: rest =>
    if b.toNat / 0x40 = 2 then
      utf8Continue (codepoint * 0x40 + b.toNat % 0x40) rest
    else none

/-- One turn of the scanner: `none` when the character at the front is
incomplete, else its length. -/
def utf8Character : Bytes → Except Exception (Option Nat)
  | [] => .ok none
  | lead :: rest =>
    match utf8Lead lead.toNat with
    | none =>
      .error (.invalidArgument
        "invalid UTF-8 leading byte in generated token stream")
    | some (length, bits, minimum) =>
      if rest.length + 1 < length then .ok none
      else
        match utf8Continue bits (rest.take (length - 1)) with
        | none =>
          .error (.invalidArgument
            "invalid UTF-8 continuation byte in generated token stream")
        | some codepoint =>
          if codepoint < minimum ∨ (0xd800 ≤ codepoint ∧ codepoint ≤ 0xdfff)
              ∨ 0x10ffff < codepoint then
            .error (.invalidArgument
              "invalid UTF-8 codepoint in generated token stream")
          else .ok (some length)

/-- The scanner's loop from `offset` on, over the bytes still ahead; each
turn consumes at least one, so `fuel` never runs out at
`bytes.length`. -/
def utf8Scan : Nat → Bytes → Nat → Except Exception Nat
  | 0, _, offset => .ok offset
  | fuel + 1, bytes, offset =>
    match utf8Character bytes with
    | .error e => .error e
    | .ok none => .ok offset
    | .ok (some length) =>
      utf8Scan fuel (bytes.drop length) (offset + length)

/-- `valid_utf8_prefix_size`. -/
def validUtf8PrefixSize (bytes : Bytes) : Except Exception Nat :=
  utf8Scan bytes.length bytes 0

-- ============ the tokenizer

/-- `TokenId`. -/
abbrev TokenId := Int

/-- One occupied id of the vocabulary. -/
inductive VocabEntry where
  | ordinary (codepoints : List Nat)
  | added (content : Bytes) (special : Bool)

/-- The part of `Tokenizer` the output decoder reads: `id_to_token_` with
its added tokens, by id. -/
structure Tokenizer where
  idToToken : Nat → Option VocabEntry

namespace Tokenizer

/-- Bytes whose byte-level symbol is themselves. -/
def visible (byte : Nat) : Bool :=
  (decide (33 ≤ byte) && decide (byte ≤ 126))
    || (decide (161 ≤ byte) && decide (byte ≤ 172))
    || (decide (174 ≤ byte) && decide (byte ≤ 255))

/-- `build_byte_level_decoder`: visible bytes stand for themselves, the
others are numbered from 256 on. -/
def byteLevelDecoder (codepoint : Nat) : Option UInt8 :=
  if codepoint < 256 then
    if visible codepoint then some (UInt8.ofNat codepoint) else none
  else
    (((List.range 256).filter fun b => !visible b)[codepoint - 256]?).map
      UInt8.ofNat

/-- The occupied entry of an id; a negative id has none. -/
def entry (t : Tokenizer) (id : TokenId) : Option VocabEntry :=
  if id < 0 then none else t.idToToken id.toNat

/-- `is_valid_token`. -/
def isValidToken (t : Tokenizer) (id : TokenId) : Bool := (t.entry id).isSome

/-- `is_special_token`. -/
def isSpecialToken (t : Tokenizer) (id : TokenId) : Bool :=
  match t.entry id with
  | some (.added _ special) => special
  | _ => false

/-- The byte-level decoding loop of `decode_token_bytes`. -/
def decodeSymbols (id : TokenId) : List Nat → Except Exception Bytes
  | [] => .ok []
  | c :: rest =>
    match byteLevelDecoder c with
    | none =>
      .error (.invalidArgument (s!"Tokenizer::decode token id {id} " ++
        "contains a character outside the byte-level alphabet"))
    | some b => (decodeSymbols id rest).map (b :: ·)

/-- `decode_token_bytes`. -/
def decodeTokenBytes (t : Tokenizer) (id : TokenId)
    (skipSpecialTokens : Bool) : Except Exception Bytes :=
  if skipSpecialTokens && t.isSpecialToken id then .ok []
  else if id < 0 then
    .error (.invalidArgument
      s!"Tokenizer::decode received negative token id {id}")
  else
    match t.entry id with
    | none =>
      .error (.outOfRange
        s!"Tokenizer::decode token id {id} is outside loaded vocabulary")
    | some (.added content _) => .ok content
    | some (.ordinary codepoints) => decodeSymbols id codepoints

end Tokenizer

end Ginfer.Frontend
