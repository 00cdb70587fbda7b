/-
Decoding the ids of a text gives the text back.

Every stage of the encoder keeps the bytes it stands for: the words are
the text cut in pieces (`splitWordsFrom_flatten`), the symbols are its
bytes in another alphabet (`byteLevelEncode_eq`), a merge joins two
neighbours (`mergeSymbols_pieces`), and the id of a symbol is that of the
token with the symbol's text (`decodeIds_symbolIds`). The decoder undoes
them stage by stage; only the normalisation is not undone.
-/
import Ginfer.Frontend.Proofs.Unicode

namespace Ginfer.Frontend

open Ginfer.Lib List Tokenizer

-- ============ the words

theorem countWhile_pos {p : Nat → Bool} {span : CodepointSpan}
    (h : p span.value = true) (rest : List CodepointSpan) :
    0 < countWhile p (span :: rest) := by
  unfold countWhile
  simp [h]

theorem whitespaceSize_pos {spans run : List CodepointSpan}
    (h : run ≠ []) : 0 < whitespaceSize spans run := by
  have hpos := length_pos_iff.mpr h
  unfold whitespaceSize
  split
  · next fromEnd hlast =>
    have hlt := (findIdx?_eq_some_iff_getElem.mp hlast).1
    rw [length_reverse] at hlt
    omega
  · split
    · exact hpos
    · split
      · omega
      · exact hpos

namespace UnicodeTables

variable (u : UnicodeTables) (span : CodepointSpan) (rest : List CodepointSpan)

/-- Every word has a character. -/
theorem plainWordSize_pos : 0 < u.plainWordSize span rest := by
  unfold plainWordSize
  dsimp only
  split
  · by_cases hletter : u.isLetterOrMark span.value = true
    · rw [if_pos hletter, drop_zero]
      have hcount := countWhile_pos hletter rest
      omega
    · rw [if_neg hletter]
      omega
  split
  · decide
  split
  · next hother =>
    by_cases hspace : span.value = 0x20
    · rw [if_pos hspace]
      omega
    · rw [if_neg hspace, drop_zero]
      have hcp : u.isNonSpaceNonLetterMarkNumber span.value = true := by
        simpa [hspace] using hother
      have hcount := countWhile_pos hcp rest
      omega
  split
  · next hwhite =>
    refine whitespaceSize_pos ?_
    simp [hwhite]
  · decide

theorem wordSize_pos : 0 < u.wordSize span rest := by
  unfold wordSize
  split
  · split
    · next size hsize =>
      unfold contractionSize at hsize
      rw [Option.map_eq_some_iff] at hsize
      obtain ⟨suffix, -, rfl⟩ := hsize
      omega
    · exact u.plainWordSize_pos span rest
  · exact u.plainWordSize_pos span rest

/-- The words are the text, cut in pieces. -/
theorem splitWordsFrom_flatten :
    ∀ (fuel : Nat) (spans : List CodepointSpan), spans.length ≤ fuel →
      (u.splitWordsFrom fuel spans).flatten = spans.flatMap (·.text) := by
  intro fuel
  induction fuel with
  | zero =>
    intro spans h
    obtain rfl : spans = [] := length_eq_zero_iff.mp (by omega)
    rfl
  | succ fuel ih =>
    intro spans h
    cases spans with
    | nil => rfl
    | cons span rest =>
      have hpos := u.wordSize_pos span rest
      rw [splitWordsFrom, flatten_cons, ih _ (by
        rw [length_cons] at h
        rw [length_drop, length_cons]
        omega), ← flatMap_append, take_append_drop]

end UnicodeTables

-- ============ the alphabet

/-- The character a byte is written as. -/
def symbolChar (byte : UInt8) : Char := Char.ofNat (byteSymbol byte)

/-- Every byte has a symbol of its own, which is read back. -/
theorem byteSymbol_spec (byte : UInt8) :
    (symbolChar byte).toNat = byteSymbol byte
      ∧ byteLevelDecoder (byteSymbol byte) = some byte := by
  have hall : ∀ n < 256,
      (symbolChar (UInt8.ofNat n)).toNat = byteSymbol (UInt8.ofNat n)
        ∧ byteLevelDecoder (byteSymbol (UInt8.ofNat n))
          = some (UInt8.ofNat n) := by
    decide +kernel
  have hbyte := hall byte.toNat byte.toNat_lt
  rw [UInt8.ofNat_toNat] at hbyte
  exact hbyte

theorem byteLevelEncode_eq (text : Bytes) :
    byteLevelEncode text = encode (text.map symbolChar) := by
  unfold byteLevelEncode encode
  rw [flatMap_map]
  refine flatMap_congr ?_
  intro byte _
  rw [← (byteSymbol_spec byte).1, utf8procEncodeChar_eq]

theorem byteLevelEncode_append (a b : Bytes) :
    byteLevelEncode (a ++ b) = byteLevelEncode a ++ byteLevelEncode b :=
  flatMap_append

/-- The symbols of a byte-level text, one for each byte. -/
theorem byteLevelSymbols_encode (text : Bytes) :
    byteLevelSymbols (byteLevelEncode text)
      = .ok ((text.map ([·])).map byteLevelEncode) := by
  unfold byteLevelSymbols
  rw [byteLevelEncode_eq, utf8Codepoints_encode]
  simp only [Except.map, map_map]
  refine congrArg Except.ok (map_congr_left ?_)
  intro byte _
  show (spanOf (symbolChar byte)).text = byteLevelEncode [byte]
  rw [byteLevelEncode_eq]
  simp [encode, spanOf]

/-- The bytes of a symbol's codepoints are the symbol's. -/
theorem decodeSymbols_symbols (id : TokenId) (text : Bytes) :
    decodeSymbols id ((text.map symbolChar).map (·.toNat))
      = .ok text := by
  induction text with
  | nil => rfl
  | cons byte text ih =>
    obtain ⟨hchar, hread⟩ := byteSymbol_spec byte
    simp only [map_cons, decodeSymbols, hchar, hread]
    rw [ih]
    rfl

-- ============ the merges

theorem mergeAt_flatten : ∀ (i : Nat) (pieces : List Bytes),
    (mergeAt i pieces).flatten = pieces.flatten := by
  intro i
  induction i with
  | zero =>
    intro pieces
    match pieces with
    | [] => rfl
    | [_] => rfl
    | left :: right :: rest => simp [mergeAt]
  | succ i ih =>
    intro pieces
    cases pieces with
    | nil => rfl
    | cons piece rest => simp [mergeAt, ih rest]

theorem mergeAt_map : ∀ (i : Nat) (pieces : List Bytes),
    mergeAt i (pieces.map byteLevelEncode)
      = (mergeAt i pieces).map byteLevelEncode := by
  intro i
  induction i with
  | zero =>
    intro pieces
    match pieces with
    | [] => rfl
    | [_] => rfl
    | left :: right :: rest =>
      simp [mergeAt, byteLevelEncode_append]
  | succ i ih =>
    intro pieces
    cases pieces with
    | nil => rfl
    | cons piece rest => simp [mergeAt, ih rest]

/-- The merges of a word's symbols are a cut of the word. -/
theorem mergeSymbols_pieces (rank : Bytes → Bytes → Option Nat) :
    ∀ (fuel : Nat) (pieces : List Bytes), ∃ merged : List Bytes,
      mergeSymbols rank fuel (pieces.map byteLevelEncode)
        = merged.map byteLevelEncode
        ∧ merged.flatten = pieces.flatten := by
  intro fuel
  induction fuel with
  | zero => exact fun pieces => ⟨pieces, rfl, rfl⟩
  | succ fuel ih =>
    intro pieces
    unfold mergeSymbols
    split
    · exact ⟨pieces, rfl, rfl⟩
    · next left _ =>
      rw [mergeAt_map]
      obtain ⟨merged, hmerged, hflat⟩ := ih (mergeAt left pieces)
      exact ⟨merged, hmerged, hflat.trans (mergeAt_flatten left pieces)⟩

-- ============ the ids

theorem decodeIds_append (t : Tokenizer) (skip : Bool)
    {a b : List TokenId} {x y : Bytes}
    (ha : t.decodeIds skip a = .ok x) (hb : t.decodeIds skip b = .ok y) :
    t.decodeIds skip (a ++ b) = .ok (x ++ y) := by
  induction a generalizing x with
  | nil =>
    cases ha
    exact hb
  | cons id a ih =>
    rw [cons_append, decodeIds]
    rw [decodeIds] at ha
    cases hid : t.decodeTokenBytes id skip with
    | error e =>
      rw [hid] at ha
      cases ha
    | ok bytes =>
      rw [hid] at ha
      dsimp only at ha ⊢
      obtain ⟨more, hrest, ha⟩ := bind_ok.mp ha
      cases ha
      rw [ih hrest]
      simp [Except.map]

namespace Vocabulary

variable {v : Vocabulary} {text : Bytes}

/-- A vocabulary token decodes to the bytes its text stands for. -/
theorem decodeTokenBytes_tokenToId {id : Nat}
    (h : v.tokenToId (byteLevelEncode text) = some id) :
    v.tokenizer.decodeTokenBytes (id : Int) false = .ok text := by
  unfold tokenToId at h
  rw [Option.map_eq_some_iff] at h
  obtain ⟨entry, hfind, rfl⟩ := h
  have hmem := mem_of_find?_eq_some hfind
  have hkey := find?_some hfind
  rw [beq_iff_eq, byteLevelEncode_eq] at hkey
  have hchars := encode_injective hkey
  -- No added token has the id, and no other entry.
  have hadded : v.added.find? (fun a => a.id == entry.2) = none := by
    rw [find?_eq_none]
    intro a ha
    simpa using v.added_apart a ha entry hmem
  have hentry : v.vocab.find? (fun e => e.2 == entry.2) = some entry := by
    cases hother : v.vocab.find? (fun e => e.2 == entry.2) with
    | none =>
      rw [find?_eq_none] at hother
      exact absurd (beq_self_eq_true _) (hother entry hmem)
    | some other =>
      have hid := find?_some hother
      rw [beq_iff_eq] at hid
      exact congrArg some (inj_on_of_nodup_map v.vocab_ids
        (mem_of_find?_eq_some hother) hmem hid)
  have hread : v.tokenizer.entry (entry.2 : Int)
      = some (.ordinary (entry.1.map (·.toNat))) := by
    unfold Tokenizer.entry
    rw [if_neg (Int.not_lt.mpr (Int.natCast_nonneg _))]
    show v.tokenizer.idToToken entry.2 = _
    unfold tokenizer
    dsimp only
    rw [hadded, hentry]
    rfl
  unfold decodeTokenBytes
  rw [Bool.false_and, if_neg (by decide),
    if_neg (Int.not_lt.mpr (Int.natCast_nonneg _)), hread, hchars]
  exact decodeSymbols_symbols _ text

/-- An added token decodes to its text. -/
theorem decodeTokenBytes_added {token : AddedToken} (h : token ∈ v.added) :
    v.tokenizer.decodeTokenBytes (token.id : Int) false
      = .ok (encode token.content) := by
  have hfind : v.added.find? (fun a => a.id == token.id) = some token := by
    cases hother : v.added.find? (fun a => a.id == token.id) with
    | none =>
      rw [find?_eq_none] at hother
      exact absurd (beq_self_eq_true _) (hother token h)
    | some other =>
      have hid := find?_some hother
      rw [beq_iff_eq] at hid
      exact congrArg some (inj_on_of_nodup_map v.added_ids
        (mem_of_find?_eq_some hother) h hid)
  have hread : v.tokenizer.entry (token.id : Int)
      = some (.added (encode token.content) token.special) := by
    unfold entry
    rw [if_neg (Int.not_lt.mpr (Int.natCast_nonneg _))]
    show v.tokenizer.idToToken token.id = _
    unfold tokenizer
    dsimp only
    rw [hfind]
  unfold decodeTokenBytes
  rw [Bool.false_and, if_neg (by decide),
    if_neg (Int.not_lt.mpr (Int.natCast_nonneg _)), hread]

/-- The ids of a list of parts decode to the parts in order. -/
theorem decodeIds_idsOf {α : Type}
    {f : α → Except Exception (List TokenId)} {g : α → Bytes}
    (hf : ∀ a ids, f a = .ok ids → v.tokenizer.decodeIds false ids = .ok (g a)) :
    ∀ (parts : List α) (ids : List TokenId), idsOf f parts = .ok ids →
      v.tokenizer.decodeIds false ids = .ok (parts.flatMap g) := by
  intro parts
  induction parts with
  | nil =>
    intro ids h
    cases h
    rfl
  | cons a rest ih =>
    intro ids h
    rw [idsOf] at h
    cases hfirst : f a with
    | error e =>
      rw [hfirst] at h
      cases h
    | ok first =>
      rw [hfirst] at h
      dsimp only at h
      obtain ⟨more, hrest, h⟩ := bind_ok.mp h
      cases h
      rw [flatMap_cons]
      exact decodeIds_append _ _ (hf a first hfirst) (ih more hrest)

theorem decodeIds_single {id : Nat}
    (h : v.tokenToId (byteLevelEncode text) = some id) :
    v.tokenizer.decodeIds false [(id : Int)] = .ok text := by
  rw [decodeIds, decodeTokenBytes_tokenToId h]
  simp [decodeIds, Except.map]

/-- The fallback to single bytes. -/
theorem decodeIds_byteIds : ∀ (pieces : List Bytes) (ids : List TokenId),
    v.byteIds (pieces.map byteLevelEncode) = .ok ids →
    v.tokenizer.decodeIds false ids = .ok pieces.flatten := by
  intro pieces
  induction pieces with
  | nil =>
    intro ids h
    cases h
    rfl
  | cons piece rest ih =>
    intro ids h
    rw [map_cons, byteIds] at h
    cases hid : v.tokenToId (byteLevelEncode piece) with
    | none =>
      rw [hid] at h
      cases h
    | some id =>
      rw [hid] at h
      dsimp only at h
      obtain ⟨more, hrest, h⟩ := bind_ok.mp h
      cases h
      rw [flatten_cons]
      exact decodeIds_append _ _ (decodeIds_single hid) (ih more hrest)

/-- The ids of a symbol decode to the bytes it was written for. -/
theorem decodeIds_symbolIds (piece : Bytes) (ids : List TokenId)
    (h : v.symbolIds (byteLevelEncode piece) = .ok ids) :
    v.tokenizer.decodeIds false ids = .ok piece := by
  unfold symbolIds at h
  cases hid : v.tokenToId (byteLevelEncode piece) with
  | some id =>
    rw [hid] at h
    cases h
    exact decodeIds_single hid
  | none =>
    rw [hid, byteLevelSymbols_encode] at h
    dsimp only at h
    split at h
    · cases h
    · have hdecode := decodeIds_byteIds _ _ h
      have hpieces : (piece.map ([·])).flatten = piece := by
        rw [← flatMap_def]
        exact flatMap_singleton' piece
      rw [hpieces] at hdecode
      exact hdecode

/-- The ids of a word decode to the word. -/
theorem decodeIds_wordIds (word : Bytes) (ids : List TokenId)
    (h : v.wordIds word = .ok ids) :
    v.tokenizer.decodeIds false ids = .ok word := by
  unfold wordIds at h
  rw [byteLevelSymbols_encode] at h
  dsimp only at h
  obtain ⟨merged, hmerged, hflat⟩ := mergeSymbols_pieces v.mergeRank
    ((word.map ([·])).map byteLevelEncode).length (word.map ([·]))
  rw [hmerged] at h
  have hpieces : (word.map ([·])).flatten = word := by
    rw [← flatMap_def]
    exact flatMap_singleton' word
  rw [hpieces] at hflat
  have hids : idsOf (fun piece => v.symbolIds (byteLevelEncode piece))
      merged = .ok ids := by
    rw [← h]
    clear h hmerged hflat
    induction merged with
    | nil => rfl
    | cons piece rest ih =>
      rw [map_cons, idsOf, idsOf, ih]
  have hdecode := decodeIds_idsOf decodeIds_symbolIds merged ids hids
  rw [flatMap_id', hflat] at hdecode
  exact hdecode

/-- The ids of an ordinary text decode to its normalisation, which is
well formed. -/
theorem decodeIds_bpeIds {u : UnicodeTables}
    {ids : List TokenId} (hne : text ≠ []) (h : v.bpeIds u text = .ok ids) :
    ∃ chars, u.mapNfc text = .ok (encode chars)
      ∧ v.tokenizer.decodeIds false ids = .ok (encode chars) := by
  unfold bpeIds at h
  rw [if_neg (by simpa using hne)] at h
  split at h
  · cases h
  unfold UnicodeTables.normalizeNfc at h
  cases hmap : u.mapNfc text with
  | error e =>
    rw [hmap] at h
    cases h
  | ok normalized =>
    rw [hmap] at h
    dsimp only at h
    unfold UnicodeTables.qwenSplitWords at h
    cases hspans : utf8Codepoints normalized
        "Tokenizer::encode input" with
    | error e =>
      rw [hspans] at h
      cases h
    | ok spans =>
      rw [hspans] at h
      simp only [Except.map] at h
      obtain ⟨chars, rfl, rfl⟩ := encode_of_utf8Codepoints hspans
      refine ⟨chars, rfl, ?_⟩
      have hdecode := decodeIds_idsOf decodeIds_wordIds _ ids h
      rw [flatMap_id', u.splitWordsFrom_flatten _ _ (Nat.le_refl _),
        spanOf_text] at hdecode
      exact hdecode

end Vocabulary

theorem encode_append (a b : List Char) :
    encode (a ++ b) = encode a ++ encode b := flatMap_append

-- ============ the segments

/-- A piece of a text as the encoder sees it. -/
inductive Segment where
  | ordinary (text : Bytes)
  | added (token : AddedToken)

/-- The added token at the front of a text: of those that are there, the
first. -/
def firstMatch (added : List AddedToken) (text : Bytes) : Option AddedToken :=
  added.find? fun token => (encode token.content).isPrefixOf text

/-- The cut of a text at its added tokens: an ordinary piece goes on for
as long as no added token begins. -/
inductive Segments (added : List AddedToken) :
    Bytes → List Segment → Prop where
  | nil : Segments added [] []
  | token {rest : Bytes} {segs : List Segment} {token : AddedToken}
      (first : firstMatch added (encode token.content ++ rest) = some token)
      (more : Segments added rest segs) :
      Segments added (encode token.content ++ rest) (.added token :: segs)
  | ordinary {piece rest : Bytes} {segs : List Segment} (some_text : piece ≠ [])
      (no_token : ∀ i < piece.length,
        firstMatch added ((piece ++ rest).drop i) = none)
      (to_token : rest = [] ∨ ∃ token, firstMatch added rest = some token)
      (more : Segments added rest segs) :
      Segments added (piece ++ rest) (.ordinary piece :: segs)

/-- What a piece is decoded to: an ordinary one to its NFC. -/
def Segment.DecodesTo (u : UnicodeTables) : Segment → List Char → Prop
  | .ordinary text, chars => u.mapNfc text = .ok (encode chars)
  | .added token, chars => chars = token.content

namespace Vocabulary

variable {v : Vocabulary}

theorem encode_ne_nil {chars : List Char} (h : chars ≠ []) :
    encode chars ≠ [] := by
  cases chars with
  | nil => exact absurd rfl h
  | cons c rest =>
    rw [encode_cons]
    simp [String.utf8EncodeChar_ne_nil]

/-- The candidates of a byte are all that can match there. -/
theorem matchToken_eq (byte : UInt8) (rest : Bytes) :
    v.matchToken byte rest = firstMatch v.added (byte :: rest) := by
  unfold matchToken candidates firstMatch
  have hloop : ∀ added : List AddedToken, (∀ a ∈ added, a.content ≠ []) →
      (added.filter fun token =>
          (encode token.content).head? == some byte).find?
        (fun token => (encode token.content).isPrefixOf (byte :: rest))
      = added.find? fun token =>
          (encode token.content).isPrefixOf (byte :: rest) := by
    intro added
    induction added with
    | nil => exact fun _ => rfl
    | cons token added ih =>
      intro hcontent
      have ih' := ih fun a ha => hcontent a (mem_cons_of_mem _ ha)
      cases hfirst : encode token.content with
      | nil =>
        exact absurd hfirst (encode_ne_nil (hcontent token mem_cons_self))
      | cons b content =>
        by_cases hb : b = byte
        · rw [filter_cons_of_pos (by simp [hfirst, hb]),
            find?_cons, find?_cons, ih']
        · rw [filter_cons_of_neg (by simp [hfirst, hb]),
            find?_cons_of_neg (by simp [hfirst, isPrefixOf, hb]), ih']
  exact hloop v.added v.added_content

/-- A token at the front of a text takes some of it. -/
theorem firstMatch_some {token : AddedToken}
    (h : firstMatch v.added text = some token) :
    token ∈ v.added ∧ ∃ rest, text = encode token.content ++ rest
      ∧ rest.length < text.length := by
  have hmem := mem_of_find?_eq_some h
  have hfront := find?_some h
  rw [ isPrefixOf_iff_prefix] at hfront
  obtain ⟨rest, hrest⟩ := hfront
  have hpos := length_pos_iff.mpr (encode_ne_nil (v.added_content token hmem))
  refine ⟨hmem, rest, hrest.symm, ?_⟩
  rw [← hrest, length_append]
  omega

/-- An ordinary piece before what is already cut. -/
theorem segments_ordinary {u : UnicodeTables} {ordinary rest : Bytes}
    {ids more : List TokenId} {segs : List Segment} {texts : List (List Char)}
    (hids : v.bpeIds u ordinary = .ok ids)
    (hfree : ∀ i < ordinary.length,
      firstMatch v.added ((ordinary ++ rest).drop i) = none)
    (hto : rest = [] ∨ ∃ token, firstMatch v.added rest = some token)
    (hsegs : Segments v.added rest segs)
    (htexts : List.Forall₂ (Segment.DecodesTo u) segs texts)
    (hmore : v.tokenizer.decodeIds false more = .ok (encode texts.flatten)) :
    ∃ segs' texts', Segments v.added (ordinary ++ rest) segs'
      ∧ List.Forall₂ (Segment.DecodesTo u) segs' texts'
      ∧ v.tokenizer.decodeIds false (ids ++ more)
        = .ok (encode texts'.flatten) := by
  by_cases hempty : ordinary = []
  · subst hempty
    cases hids
    exact ⟨segs, texts, hsegs, htexts, hmore⟩
  · obtain ⟨chars, hnfc, hdecode⟩ := decodeIds_bpeIds hempty hids
    refine ⟨.ordinary ordinary :: segs, chars :: texts,
      .ordinary hempty hfree hto hsegs, .cons hnfc htexts, ?_⟩
    rw [flatten_cons, encode_append]
    exact decodeIds_append _ _ hdecode hmore

/-- The loop of `encode`, from the text since the last added token on. -/
theorem encodeFrom_spec {u : UnicodeTables} :
    ∀ (fuel : Nat) (ordinary rest : Bytes) (ids : List TokenId),
      rest.length ≤ fuel → v.encodeFrom u fuel ordinary rest = .ok ids →
      (∀ i < ordinary.length,
        firstMatch v.added ((ordinary ++ rest).drop i) = none) →
      ∃ segs texts, Segments v.added (ordinary ++ rest) segs
        ∧ List.Forall₂ (Segment.DecodesTo u) segs texts
        ∧ v.tokenizer.decodeIds false ids
        = .ok (encode texts.flatten) := by
  -- At the end of the text, the ordinary piece is the last.
  have hend : ∀ (ordinary : Bytes) (ids : List TokenId),
      v.bpeIds u ordinary = .ok ids →
      (∀ i < ordinary.length,
        firstMatch v.added ((ordinary ++ []).drop i) = none) →
      ∃ segs texts, Segments v.added (ordinary ++ []) segs
        ∧ List.Forall₂ (Segment.DecodesTo u) segs texts
        ∧ v.tokenizer.decodeIds false ids
          = .ok (encode texts.flatten) := by
    intro ordinary ids h hfree
    have hlast : ∃ segs texts, Segments v.added (ordinary ++ []) segs
        ∧ List.Forall₂ (Segment.DecodesTo u) segs texts
        ∧ v.tokenizer.decodeIds false (ids ++ []) = .ok (encode texts.flatten) :=
      segments_ordinary h hfree (Or.inl rfl) .nil .nil rfl
    rw [append_nil ids] at hlast
    exact hlast
  intro fuel
  induction fuel with
  | zero =>
    intro ordinary rest ids hfuel h hfree
    obtain rfl : rest = [] := length_eq_zero_iff.mp (by omega)
    exact hend ordinary ids h hfree
  | succ fuel ih =>
    intro ordinary rest ids hfuel h hfree
    cases rest with
    | nil => exact hend ordinary ids h hfree
    | cons byte rest =>
      rw [encodeFrom, matchToken_eq] at h
      rw [length_cons] at hfuel
      cases hmatch : firstMatch v.added (byte :: rest) with
      | none =>
        rw [hmatch] at h
        dsimp only at h
        have hgrown := ih (ordinary ++ [byte]) rest ids (by omega) h
          (by
            intro i hi
            rw [append_assoc]
            rw [length_append, length_singleton] at hi
            by_cases hlt : i < ordinary.length
            · exact hfree i hlt
            · obtain rfl : i = ordinary.length := by omega
              rw [drop_left' rfl]
              exact hmatch)
        rw [append_assoc] at hgrown
        exact hgrown
      | some token =>
        rw [hmatch] at h
        dsimp only at h
        obtain ⟨hmem, after, hafter, hshort⟩ := firstMatch_some hmatch
        cases hids : v.bpeIds u ordinary with
        | error e =>
          rw [hids] at h
          cases h
        | ok before =>
          rw [hids] at h
          dsimp only at h
          rw [hafter, drop_left' rfl] at h
          obtain ⟨more, hnext, h⟩ := bind_ok.mp h
          cases h
          rw [length_cons] at hshort
          obtain ⟨segs, texts, hsegs, htexts, hdecode⟩ :=
            ih [] after more (by omega) hnext nofun
          rw [hafter] at hmatch hfree ⊢
          refine segments_ordinary hids hfree
            (Or.inr ⟨token, hmatch⟩) (.token hmatch hsegs)
            (.cons rfl htexts) ?_
          rw [flatten_cons, encode_append, decodeIds,
            decodeTokenBytes_added hmem]
          dsimp only
          rw [hdecode]
          rfl

-- ============ the round trip

/-- The ids of a text decode, special tokens kept, to the text with every
ordinary piece between added tokens in NFC. Without the search for added
tokens the text is one piece. -/
theorem decode_encodeText (u : UnicodeTables) (v : Vocabulary)
    (text : Bytes) (parseAddedTokens : Bool) (ids : List TokenId)
    (h : v.encodeText u text parseAddedTokens = .ok ids) :
    ∃ segs texts,
      Segments (if parseAddedTokens then v.added else []) text segs
        ∧ List.Forall₂ (Segment.DecodesTo u) segs texts
        ∧ v.tokenizer.decode ids false [] = .ok (encode texts.flatten) := by
  -- The last check of `decode` passes on every well-formed text.
  have hcheck : ∀ chars, v.tokenizer.decodeIds false ids = .ok (encode chars) →
      v.tokenizer.decode ids false [] = .ok (encode chars) := by
    intro chars hdecode
    unfold Tokenizer.decode
    dsimp only
    cases ids.getLast? with
    | none =>
      dsimp only
      rw [hdecode]
      dsimp only
      rw [utf8Codepoints_encode]
    | some last =>
      dsimp only
      rw [if_neg not_mem_nil, hdecode]
      dsimp only
      rw [utf8Codepoints_encode]
  unfold encodeText at h
  by_cases hempty : text = []
  · subst hempty
    cases h
    exact ⟨[], [], .nil, .nil, rfl⟩
  rw [if_neg (by simpa using hempty)] at h
  cases parseAddedTokens with
  | false =>
    obtain ⟨chars, hnfc, hdecode⟩ := decodeIds_bpeIds hempty h
    refine ⟨[.ordinary text], [chars], ?_, .cons hnfc .nil, ?_⟩
    · have hone : Segments [] (text ++ []) [.ordinary text] :=
        .ordinary hempty (fun _ _ => rfl) (Or.inl rfl) .nil
      rw [append_nil] at hone
      exact hone
    · rw [flatten_singleton]
      exact hcheck chars hdecode
  | true =>
    obtain ⟨segs, texts, hsegs, htexts, hdecode⟩ := encodeFrom_spec
      text.length [] text ids (Nat.le_refl _) h nofun
    exact ⟨segs, texts, hsegs, htexts, hcheck _ hdecode⟩

/-- The letters `a` and `b`, their pair, and one added token. -/
def pairVocabulary : Vocabulary where
  vocab := [(['a'], 0), (['b'], 1), (['a', 'b'], 2)]
  added := [⟨3, ['<', 's', '>'], true⟩]
  merges := [(['a'], ['b'])]
  hasBpeMerges := true
  merges_loaded := rfl
  vocab_ids := by decide
  added_ids := by decide
  added_apart := by decide
  added_content := by decide

/-- The tables of lower-case ASCII, which is its own NFC. -/
def asciiTables : UnicodeTables where
  mapNfc text := .ok text
  category codepoint :=
    if 0x61 ≤ codepoint ∧ codepoint ≤ 0x7a then .ll else .other

/-- `ab<s>a` is the pair, the added token and a letter, and is read
back. -/
theorem decode_encodeText_pair :
    pairVocabulary.encodeText asciiTables (ascii "ab<s>a") true = .ok [2, 3, 0]
      ∧ ∃ segs texts,
        Segments pairVocabulary.added (ascii "ab<s>a") segs
          ∧ List.Forall₂ (Segment.DecodesTo asciiTables) segs texts
          ∧ pairVocabulary.tokenizer.decode [2, 3, 0] false []
            = .ok (encode texts.flatten) := by
  have hids : pairVocabulary.encodeText asciiTables (ascii "ab<s>a") true
      = .ok [2, 3, 0] := rfl
  exact ⟨hids, decode_encodeText asciiTables pairVocabulary
    (ascii "ab<s>a") true [2, 3, 0] hids⟩

end Vocabulary

end Ginfer.Frontend
