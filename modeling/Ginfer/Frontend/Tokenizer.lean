/-
The tokenizer's encoder (targets/qwen3_6/impl/frontend/tokenizer.cpp).

A text is cut at the added tokens that occur in it. What is left between
them is normalised, split into words, written in the byte-level alphabet
and merged pair by pair, lowest rank first; every symbol that remains is
a token of the vocabulary, or falls apart into the tokens of its single
bytes.

`Vocabulary` is a loaded tokenizer. Its strings come from JSON, so they
are well-formed text (`List Char`, with `encode` for the bytes), and what
the constructor refuses is a field: ids given twice, an added token under
a vocabulary id, an added token without text.
-/
import Ginfer.Frontend.Unicode

namespace Ginfer.Frontend

open Ginfer.Lib

-- ============ the vocabulary

/-- `AddedToken`; the flags the constructor refuses are left out. -/
structure AddedToken where
  id : Nat
  content : List Char
  special : Bool

/-- What the constructor of `Tokenizer` loads; it sets `has_bpe_merges_`
to true and nothing writes it again. -/
structure Vocabulary where
  vocab : List (List Char × Nat)
  added : List AddedToken
  merges : List (List Char × List Char)
  hasBpeMerges : Bool
  merges_loaded : hasBpeMerges = true
  vocab_ids : (vocab.map (·.2)).Nodup
  added_ids : (added.map (·.id)).Nodup
  added_apart : ∀ a ∈ added, ∀ v ∈ vocab, a.id ≠ v.2
  added_content : ∀ a ∈ added, a.content ≠ []

namespace Vocabulary

/-- `vocab_token_to_id_`. -/
def tokenToId (v : Vocabulary) (symbol : Bytes) : Option Nat :=
  (v.vocab.find? fun entry => encode entry.1 == symbol).map (·.2)

/-- `merge_pair_key`. -/
def mergePairKey (left right : Bytes) : Bytes := left ++ 0 :: right

/-- `bpe_merge_ranks_`: the place of a pair among the merges. -/
def mergeRank (v : Vocabulary) (left right : Bytes) : Option Nat :=
  v.merges.findIdx? fun m =>
    mergePairKey (encode m.1) (encode m.2) == mergePairKey left right

/-- `id_to_token_` with its added tokens, as the decoder reads it. -/
def tokenizer (v : Vocabulary) : Tokenizer where
  idToToken id :=
    match v.added.find? fun a => a.id == id with
    | some a => some (.added (encode a.content) a.special)
    | none =>
      (v.vocab.find? fun entry => entry.2 == id).map fun entry =>
        .ordinary (entry.1.map (·.toNat))

end Vocabulary

-- ============ the words

/-- `is_newline`. -/
def isNewline (codepoint : Nat) : Bool :=
  codepoint == 0x0d || codepoint == 0x0a

namespace UnicodeTables

/-- `is_letter_or_mark`. -/
def isLetterOrMark (u : UnicodeTables) (codepoint : Nat) : Bool :=
  u.isLetter codepoint || u.isMark codepoint

/-- `is_non_newline_non_letter_non_number`. -/
def isNonNewlineNonLetterNonNumber (u : UnicodeTables) (codepoint : Nat) : Bool :=
  !isNewline codepoint && !u.isLetter codepoint && !u.isNumber codepoint

/-- `is_non_space_non_letter_mark_number`. -/
def isNonSpaceNonLetterMarkNumber (u : UnicodeTables) (codepoint : Nat) : Bool :=
  !u.isWhitespace codepoint && !u.isLetter codepoint
    && !u.isMark codepoint && !u.isNumber codepoint

end UnicodeTables

/-- `std::tolower` of the C locale. -/
def toLower (byte : UInt8) : UInt8 :=
  if 0x41 ≤ byte ∧ byte ≤ 0x5a then byte + 0x20 else byte

/-- `ascii_ci_matches` on the text from the offset on. -/
def asciiCiMatches (text suffix : Bytes) : Bool :=
  decide (suffix.length ≤ text.length)
    && (text.take suffix.length).map toLower == suffix.map toLower

/-- The spans that begin within the first `size` bytes. -/
def spansWithin (size : Nat) : List CodepointSpan → Nat
  | [] => 0
  | span :: rest =>
    if 0 < size then 1 + spansWithin (size - span.text.length) rest
    else 0

/-- The contractions, in the order they are tried. -/
def contractions : List Bytes :=
  [ascii "s", ascii "t", ascii "re", ascii "ve", ascii "m", ascii "ll", ascii "d"]

/-- The number of spans of the contraction after an apostrophe. -/
def contractionSize (rest : List CodepointSpan) : Option Nat :=
  (contractions.find?
      (asciiCiMatches (rest.flatMap (·.text)))).map fun suffix =>
    1 + spansWithin suffix.length rest

/-- The leading spans whose codepoints satisfy `p`. -/
def countWhile (p : Nat → Bool) (spans : List CodepointSpan) : Nat :=
  (spans.takeWhile fun span => p span.value).length

/-- The end of a run of whitespace, `run` of `spans`: after its last line
break; at the end of the text; else it leaves one for the next word. -/
def whitespaceSize (spans run : List CodepointSpan) : Nat :=
  match run.reverse.findIdx? fun span => isNewline span.value with
  | some fromEnd => run.length - fromEnd
  | none =>
    if run.length = spans.length then run.length
    else if 2 ≤ run.length then run.length - 1
    else run.length

namespace UnicodeTables

/-- One turn of `qwen_split_words` when no contraction is there: the
number of spans of the word that begins with `span`. -/
def plainWordSize (u : UnicodeTables) (span : CodepointSpan)
    (rest : List CodepointSpan) : Nat :=
  let cp := span.value
  let spans := span :: rest
  if u.isLetterOrMark cp
      || (u.isNonNewlineNonLetterNonNumber cp
        && rest.head?.any fun next => u.isLetterOrMark next.value) then
    let skip := if u.isLetterOrMark cp then 0 else 1
    skip + countWhile u.isLetterOrMark (spans.drop skip)
  else if u.isNumber cp then 1
  else if (cp == 0x20
        && rest.head?.any
          fun next => u.isNonSpaceNonLetterMarkNumber next.value)
      || u.isNonSpaceNonLetterMarkNumber cp then
    let skip := if cp = 0x20 then 1 else 0
    let body :=
      skip + countWhile u.isNonSpaceNonLetterMarkNumber (spans.drop skip)
    body + countWhile isNewline (spans.drop body)
  else if u.isWhitespace cp then
    whitespaceSize spans (spans.takeWhile fun next => u.isWhitespace next.value)
  else 1

/-- One turn of `qwen_split_words`. -/
def wordSize (u : UnicodeTables) (span : CodepointSpan)
    (rest : List CodepointSpan) : Nat :=
  if span.value = 0x27 then
    match contractionSize rest with
    | some size => size
    | none => u.plainWordSize span rest
  else u.plainWordSize span rest

/-- The loop of `qwen_split_words`: each turn takes a span at least. -/
def splitWordsFrom (u : UnicodeTables) : Nat → List CodepointSpan → List Bytes
  | 0, _ => []
  | _ + 1, [] => []
  | fuel + 1, span :: rest =>
    ((span :: rest).take (u.wordSize span rest)).flatMap (·.text)
      :: u.splitWordsFrom fuel ((span :: rest).drop (u.wordSize span rest))

/-- `qwen_split_words`. -/
def qwenSplitWords (u : UnicodeTables) (text : Bytes) :
    Except Exception (List Bytes) :=
  (utf8Codepoints text "Tokenizer::encode input").map fun spans =>
    u.splitWordsFrom spans.length spans

end UnicodeTables

-- ============ the alphabet

/-- `build_byte_level_encoder`: the codepoint of a byte. -/
def byteSymbol (byte : UInt8) : Nat :=
  if Tokenizer.visible byte.toNat then byte.toNat
  else 256 + ((List.range byte.toNat).filter
    fun b => !Tokenizer.visible b).length

/-- `byte_level_encode`; every codepoint of the alphabet has an
encoding. -/
def byteLevelEncode (text : Bytes) : Bytes :=
  text.flatMap fun byte => utf8procEncodeChar (byteSymbol byte)

/-- `byte_level_symbols`. -/
def byteLevelSymbols (text : Bytes) : Except Exception (List Bytes) :=
  (utf8Codepoints text "Tokenizer::encode byte-level text").map
    fun spans => spans.map (·.text)

-- ============ the merges

/-- The scan for the best pair from the index `i` on; `best` is the rank
and the place of the best so far. -/
def bestPairFrom (rank : Bytes → Bytes → Option Nat) :
    Nat → Nat × Option Nat → List Bytes → Nat × Option Nat
  | i, best, left :: right :: rest =>
    bestPairFrom rank (i + 1)
      (match rank left right with
        | some r => if r < best.1 then (r, some i) else best
        | none => best)
      (right :: rest)
  | _, best, _ => best

/-- `best_pair_left`, from the rank `INT_MAX` on. -/
def bestPair (rank : Bytes → Bytes → Option Nat) (symbols : List Bytes) :
    Option Nat :=
  (bestPairFrom rank 0 (2 ^ 31 - 1, none) symbols).2

/-- The symbols at `i` and `i + 1` become one. -/
def mergeAt : Nat → List Bytes → List Bytes
  | 0, left :: right :: rest => (left ++ right) :: rest
  | i + 1, symbol :: rest => symbol :: mergeAt i rest
  | _, symbols => symbols

/-- The merge loop: each turn takes a symbol away, so `fuel` never runs
out at the number of symbols. -/
def mergeSymbols (rank : Bytes → Bytes → Option Nat) :
    Nat → List Bytes → List Bytes
  | 0, symbols => symbols
  | fuel + 1, symbols =>
    match bestPair rank symbols with
    | none => symbols
    | some left => mergeSymbols rank fuel (mergeAt left symbols)

namespace Vocabulary

/-- The text of a symbol, for a message. -/
def shownSymbol (symbol : Bytes) : String :=
  match utf8Codepoints symbol "" with
  | .ok spans => String.ofList (spans.map fun s => Char.ofNat s.value)
  | .error _ => ""

/-- The byte symbols of a symbol that is no token. -/
def byteIds (v : Vocabulary) : List Bytes → Except Exception (List TokenId)
  | [] => .ok []
  | symbol :: rest =>
    match v.tokenToId symbol with
    | none =>
      .error (.invalidArgument
        ("Tokenizer::encode produced byte symbol outside vocabulary: "
          ++ shownSymbol symbol))
    | some id => (v.byteIds rest).map ((id : Int) :: ·)

/-- `append_symbol_id`: the ids a symbol appends. -/
def symbolIds (v : Vocabulary) (symbol : Bytes) :
    Except Exception (List TokenId) :=
  match v.tokenToId symbol with
  | some id => .ok [(id : Int)]
  | none =>
    match byteLevelSymbols symbol with
    | .error e => .error e
    | .ok bytes =>
      if bytes.length ≤ 1 then
        .error (.invalidArgument
          ("Tokenizer::encode produced token outside vocabulary: "
            ++ shownSymbol symbol))
      else v.byteIds bytes

/-- The ids of a list of parts, in order. -/
def idsOf {α : Type} (f : α → Except Exception (List TokenId)) :
    List α → Except Exception (List TokenId)
  | [] => .ok []
  | a :: rest =>
    match f a with
    | .error e => .error e
    | .ok ids => (idsOf f rest).map (ids ++ ·)

/-- The ids of one word. -/
def wordIds (v : Vocabulary) (word : Bytes) : Except Exception (List TokenId) :=
  match byteLevelSymbols (byteLevelEncode word) with
  | .error e => .error e
  | .ok symbols =>
    idsOf v.symbolIds (mergeSymbols v.mergeRank symbols.length symbols)

/-- `append_bpe_ids`: the ids an ordinary text appends. -/
def bpeIds (v : Vocabulary) (u : UnicodeTables) (text : Bytes) :
    Except Exception (List TokenId) :=
  if text.isEmpty then .ok []
  else if !v.hasBpeMerges then
    .error (.invalidArgument
      "Tokenizer::encode ordinary BPE text requires embedded merges.txt")
  else
    match u.normalizeNfc text with
    | .error e => .error e
    | .ok normalized =>
      match u.qwenSplitWords normalized with
      | .error e => .error e
      | .ok words => idsOf v.wordIds words

-- ============ the encoder

/-- `added_token_candidates_`: the added tokens that begin with a byte. -/
def candidates (v : Vocabulary) (byte : UInt8) : List AddedToken :=
  v.added.filter fun token => (encode token.content).head? == some byte

/-- The added token at the front of a text. -/
def matchToken (v : Vocabulary) (byte : UInt8) (rest : Bytes) :
    Option AddedToken :=
  (v.candidates byte).find? fun token =>
    (encode token.content).isPrefixOf (byte :: rest)

/-- The loop of `encode`: `ordinary` is the text since
`ordinary_begin`, then the text from `pos` on. -/
def encodeFrom (v : Vocabulary) (u : UnicodeTables) :
    Nat → Bytes → Bytes → Except Exception (List TokenId)
  | 0, ordinary, _ => v.bpeIds u ordinary
  | _ + 1, ordinary, [] => v.bpeIds u ordinary
  | fuel + 1, ordinary, byte :: rest =>
    match v.matchToken byte rest with
    | none => v.encodeFrom u fuel (ordinary ++ [byte]) rest
    | some token =>
      match v.bpeIds u ordinary with
      | .error e => .error e
      | .ok ids =>
        (v.encodeFrom u fuel []
            ((byte :: rest).drop (encode token.content).length)).map
          (ids ++ (token.id : Int) :: ·)

/-- `Tokenizer::encode`. -/
def encodeText (v : Vocabulary) (u : UnicodeTables) (text : Bytes)
    (parseAddedTokens : Bool) : Except Exception (List TokenId) :=
  if text.isEmpty then .ok []
  else if !parseAddedTokens then v.bpeIds u text
  else v.encodeFrom u text.length [] text

end Vocabulary

-- ============ the decoder

namespace Tokenizer

/-- The loop of `decode` over the ids it does not leave out. -/
def decodeIds (t : Tokenizer) (skipSpecialTokens : Bool) :
    List TokenId → Except Exception Bytes
  | [] => .ok []
  | id :: rest =>
    match t.decodeTokenBytes id skipSpecialTokens with
    | .error e => .error e
    | .ok bytes => (t.decodeIds skipSpecialTokens rest).map (bytes ++ ·)

/-- `Tokenizer::decode`: a stop token at the end is left out. -/
def decode (t : Tokenizer) (ids : List TokenId) (skipSpecialTokens : Bool)
    (stopTokenIds : List TokenId) : Except Exception Bytes :=
  let kept :=
    match ids.getLast? with
    | some last => if last ∈ stopTokenIds then ids.dropLast else ids
    | none => ids
  match t.decodeIds skipSpecialTokens kept with
  | .error e => .error e
  | .ok text =>
    match utf8Codepoints text
        "Tokenizer::decode reconstructed output" with
    | .error e => .error e
    | .ok _ => .ok text

end Tokenizer

end Ginfer.Frontend
