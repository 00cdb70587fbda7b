/-
The pad tokens of an encoded text are pads of the text.

The constructor of the processor has seen that each pad encodes to its
one token. A pad falls into more than one word, so that token is an added
one (`pad_added`): merging stays inside words. Ordinary text is encoded
to tokens of the vocabulary, which are not added, and an added token
stands where its text occurs. So the encoder finds no pad that is not
there, though it may miss some, inside another added token
(`encodeText_pads`).
-/
import Ginfer.Frontend.Proofs.Placeholders
import Ginfer.Frontend.Proofs.SplitWords

namespace Ginfer.Frontend

open Ginfer.Lib List Vocabulary

/-- What the library's tables hold for ASCII, as far as it is used: such
a text is its own NFC, `<` and `|` are signs, `i` and `v` letters. -/
structure UnicodeTables.ReadsAscii (u : UnicodeTables) : Prop where
  nfc : ∀ text : Bytes, (∀ b ∈ text, b.toNat < 0x80) → u.mapNfc text = .ok text
  less : u.category 0x3c = .other
  bar : u.category 0x7c = .other
  letter_i : u.category 0x69 = .ll
  letter_v : u.category 0x76 = .ll

namespace Vocabulary

variable {v : Vocabulary} {u : UnicodeTables}

-- ============ the ids of a text

variable {ids : List TokenId}

/-- The ids of parts that each have one are as many as the parts. -/
theorem idsOf_length_le {α : Type}
    {f : α → Except Exception (List TokenId)} {parts : List α}
    (hf : ∀ a ∈ parts, ∀ ids, f a = .ok ids → ids ≠ [])
    (h : idsOf f parts = .ok ids) :
    parts.length ≤ ids.length := by
  induction parts generalizing ids with
  | nil => exact Nat.zero_le _
  | cons a rest ih =>
    obtain ⟨ha, hrest⟩ := forall_mem_cons.mp hf
    rw [idsOf] at h
    cases hfirst : f a with
    | error e =>
      rw [hfirst] at h
      cases h
    | ok first =>
      rw [hfirst] at h
      dsimp only at h
      obtain ⟨more, hmore, h⟩ := bind_ok.mp h
      cases h
      have hpos := length_pos_iff.mpr (ha first hfirst)
      have hle := ih hrest hmore
      rw [length_append, length_cons]
      omega

/-- A property of the ids of every part. -/
theorem idsOf_forall {α : Type} {P : TokenId → Prop}
    {f : α → Except Exception (List TokenId)}
    (hf : ∀ a ids, f a = .ok ids → ∀ id ∈ ids, P id) :
    ∀ (parts : List α) (ids : List TokenId), idsOf f parts = .ok ids →
      ∀ id ∈ ids, P id := by
  intro parts
  induction parts with
  | nil =>
    intro ids h
    cases h
    exact fun id hid => absurd hid not_mem_nil
  | cons a rest ih =>
    intro ids h id hid
    rw [idsOf] at h
    cases hfirst : f a with
    | error e =>
      rw [hfirst] at h
      cases h
    | ok first =>
      rw [hfirst] at h
      dsimp only at h
      obtain ⟨more, hmore, h⟩ := bind_ok.mp h
      cases h
      rcases mem_append.mp hid with hid | hid
      · exact hf a first hfirst id hid
      · exact ih more hmore id hid

/-- An id of the vocabulary proper. -/
def Ordinary (v : Vocabulary) (id : TokenId) : Prop :=
  ∃ entry ∈ v.vocab, id = (entry.2 : Int)

theorem ordinary_of_tokenToId {symbol : Bytes} {id : Nat}
    (h : v.tokenToId symbol = some id) : v.Ordinary (id : Int) := by
  unfold tokenToId at h
  rw [Option.map_eq_some_iff] at h
  obtain ⟨entry, hfind, rfl⟩ := h
  exact ⟨entry, mem_of_find?_eq_some hfind, rfl⟩

/-- The fallback gives one id of the vocabulary for each byte. -/
theorem byteIds_spec : ∀ (symbols : List Bytes) (ids : List TokenId),
    v.byteIds symbols = .ok ids →
    ids.length = symbols.length ∧ ∀ id ∈ ids, v.Ordinary id := by
  intro symbols
  induction symbols with
  | nil =>
    intro ids h
    cases h
    exact ⟨rfl, fun id hid => absurd hid not_mem_nil⟩
  | cons symbol rest ih =>
    intro ids h
    rw [byteIds] at h
    cases hid : v.tokenToId symbol with
    | none =>
      rw [hid] at h
      cases h
    | some id =>
      rw [hid] at h
      dsimp only at h
      obtain ⟨more, hmore, h⟩ := bind_ok.mp h
      cases h
      obtain ⟨hlength, hall⟩ := ih more hmore
      refine ⟨by rw [length_cons, hlength]; rfl, ?_⟩
      exact forall_mem_cons.mpr ⟨ordinary_of_tokenToId hid, hall⟩

/-- A symbol has an id, and its ids are of the vocabulary. -/
theorem symbolIds_spec {symbol : Bytes} (h : v.symbolIds symbol = .ok ids) :
    ids ≠ [] ∧ ∀ id ∈ ids, v.Ordinary id := by
  unfold symbolIds at h
  cases hid : v.tokenToId symbol with
  | some id =>
    rw [hid] at h
    cases h
    refine ⟨cons_ne_nil _ _, fun other hother => ?_⟩
    rw [mem_singleton.mp hother]
    exact ordinary_of_tokenToId hid
  | none =>
    rw [hid] at h
    dsimp only at h
    cases hbytes : byteLevelSymbols symbol with
    | error e =>
      rw [hbytes] at h
      cases h
    | ok bytes =>
      rw [hbytes] at h
      dsimp only at h
      split at h
      · cases h
      · next hmany =>
        obtain ⟨hlength, hall⟩ := byteIds_spec bytes ids h
        refine ⟨?_, hall⟩
        rintro rfl
        rw [length_nil] at hlength
        omega

/-- A word has an id, and its ids are of the vocabulary. -/
theorem wordIds_spec {word : Bytes} (h : v.wordIds word = .ok ids) :
    (word ≠ [] → ids ≠ []) ∧ ∀ id ∈ ids, v.Ordinary id := by
  unfold wordIds at h
  rw [byteLevelSymbols_encode] at h
  dsimp only at h
  obtain ⟨merged, hmerged, hflat⟩ := mergeSymbols_pieces v.mergeRank
    ((word.map ([·])).map byteLevelEncode).length (word.map ([·]))
  rw [hmerged] at h
  refine ⟨fun hne hnil => ?_, ?_⟩
  · have hle := idsOf_length_le (fun _ _ _ hok => (symbolIds_spec hok).1) h
    rw [hnil, length_map, length_nil] at hle
    have hempty : merged = [] :=
      length_eq_zero_iff.mp (Nat.le_zero.mp hle)
    rw [hempty, ← flatMap_def, flatMap_singleton'] at hflat
    exact hne hflat.symm
  · exact idsOf_forall (fun _ _ hok => (symbolIds_spec hok).2) _ ids h

variable {text : Bytes}

/-- What ordinary text was cut into. -/
theorem bpeIds_words (hne : text ≠ []) (h : v.bpeIds u text = .ok ids) :
    ∃ normalized words, u.mapNfc text = .ok normalized
      ∧ u.qwenSplitWords normalized = .ok words
      ∧ idsOf v.wordIds words = .ok ids := by
  unfold bpeIds at h
  rw [if_neg (by simpa using hne)] at h
  split at h
  · cases h
  unfold UnicodeTables.normalizeNfc at h
  cases hmap : u.mapNfc text with
  | error e =>
    rw [hmap] at h
    cases h
  | ok normalized =>
    rw [hmap] at h
    dsimp only at h
    cases hwords : u.qwenSplitWords normalized with
    | error e =>
      rw [hwords] at h
      cases h
    | ok words =>
      rw [hwords] at h
      exact ⟨normalized, words, rfl, hwords, h⟩

/-- Ordinary text is encoded to ids of the vocabulary. -/
theorem bpeIds_ordinary
    (h : v.bpeIds u text = .ok ids) : ∀ id ∈ ids, v.Ordinary id := by
  by_cases hne : text = []
  · unfold bpeIds at h
    rw [hne] at h
    cases h
    exact fun id hid => absurd hid not_mem_nil
  · obtain ⟨_, words, -, -, hids⟩ := bpeIds_words hne h
    exact idsOf_forall (fun _ _ hok => (wordIds_spec hok).2) words ids hids

-- ============ ASCII text

/-- Text of ASCII bytes. -/
def Ascii (text : Bytes) : Prop := ∀ b ∈ text, b.toNat < 0x80

/-- Ordinary ASCII text has at least as many ids as words. -/
theorem bpeIds_ascii (hu : u.ReadsAscii) (hascii : Ascii text) (hne : text ≠ [])
    (h : v.bpeIds u text = .ok ids) :
    ∃ chars, text = encode chars
      ∧ (u.splitWordsFrom chars.length (chars.map spanOf)).length
        ≤ ids.length := by
  obtain ⟨normalized, words, hnfc, hwords, hids⟩ := bpeIds_words hne h
  rw [hu.nfc text hascii] at hnfc
  cases hnfc
  unfold UnicodeTables.qwenSplitWords at hwords
  obtain ⟨spans, hspans, hwords⟩ := bind_ok.mp hwords
  obtain ⟨chars, rfl, rfl⟩ := encode_of_utf8Codepoints hspans
  cases hwords
  refine ⟨chars, rfl, ?_⟩
  dsimp only at hids
  rw [length_map] at hids
  exact idsOf_length_le (fun word hword _ hok => (wordIds_spec hok).1
    (u.splitWordsFrom_ne_nil _ chars word hword)) hids

theorem bpeIds_ne_nil (hu : u.ReadsAscii) (hascii : Ascii text) (hne : text ≠ [])
    (h : v.bpeIds u text = .ok ids) : ids ≠ [] := by
  obtain ⟨chars, rfl, hle⟩ := bpeIds_ascii hu hascii hne h
  rintro rfl
  rw [length_nil, Nat.le_zero, length_eq_zero_iff] at hle
  have hflat := u.splitWordsFrom_flatten chars.length (chars.map spanOf)
    (by rw [length_map])
  rw [hle, spanOf_text] at hflat
  exact hne hflat.symm

end Vocabulary

namespace UnicodeTables

/-- The first word of a tag: its bracket and its bar. -/
theorem wordSize_tag {u : UnicodeTables} (hu : u.ReadsAscii) {letter : Char}
    (hletter : u.category letter.toNat = .ll)
    (hbreak : lineBreak letter = false) (more : List Char) :
    u.wordSize (spanOf '<') (('|' :: letter :: more).map spanOf) = 2 := by
  have hless : u.category 0x3c = .other := hu.less
  have hbar : u.category 0x7c = .other := hu.bar
  have hless' : u.sign '<' = true := by
    simp [sign, isNonSpaceNonLetterMarkNumber, isWhitespace, isLetter,
      isMark, isNumber, hless]
  have hbar' : u.sign '|' = true := by
    simp [sign, isNonSpaceNonLetterMarkNumber, isWhitespace, isLetter,
      isMark, isNumber, hbar]
  have hstop : u.sign letter = false := by
    simp [sign, isNonSpaceNonLetterMarkNumber, isLetter, hletter]
  have hnotLetter : u.letterMark '<' = false := by
    simp [letterMark, isLetterOrMark, isLetter, isMark, hless]
  have hnextNot : u.letterMark '|' = false := by
    simp [letterMark, isLetterOrMark, isLetter, isMark, hbar]
  have hnumber : u.number '<' = false := by
    simp [number, isNumber, hless]
  unfold wordSize
  rw [if_neg (by decide), plainWordSize_spanOf, if_neg (by simp [hnotLetter]),
    if_neg (by simp [hnextNot]), if_neg (by simp [hnumber]),
    if_neg (fun h => absurd h.1 (by decide)), if_pos hless']
  simp [Regex.run_cons, hless', hbar', hstop, hbreak]

/-- So a tag is more than one word. -/
theorem splitWordsFrom_tag {u : UnicodeTables} (hu : u.ReadsAscii)
    {letter : Char} (hletter : u.category letter.toNat = .ll)
    (hbreak : lineBreak letter = false) (more : List Char) :
    2 ≤ (u.splitWordsFrom ('<' :: '|' :: letter :: more).length
      (('<' :: '|' :: letter :: more).map spanOf)).length := by
  rw [map_cons, length_cons, splitWordsFrom, wordSize_tag hu
    hletter hbreak, map_cons, map_cons, drop_succ_cons,
    drop_succ_cons, drop_zero, length_cons, length_cons,
    splitWordsFrom, length_cons]
  omega

end UnicodeTables

namespace Multimodal

open Ginfer.Qwen (PromptModality)

variable {v : Vocabulary} {u : UnicodeTables}

-- ============ the pad tokens

/-- The characters of a pad. -/
def padChars : PromptModality → List Char
  | .image => "<|image_pad|>".toList
  | .video => "<|video_pad|>".toList

theorem encode_padChars (m : PromptModality) :
    encode (padChars m) = padOf m := by
  cases m with
  | image => rfl
  | video => rfl

theorem padOf_ascii (m : PromptModality) : Ascii (padOf m) := by
  unfold Ascii
  cases m <;> decide +kernel

/-- As ordinary text a pad would have two ids at least. -/
theorem bpeIds_pad (hu : u.ReadsAscii) (m : PromptModality)
    {ids : List TokenId} (h : v.bpeIds u (padOf m) = .ok ids) :
    2 ≤ ids.length := by
  obtain ⟨chars, hchars, hle⟩ := bpeIds_ascii hu
    (padOf_ascii m) (padOf_framed m).ne_nil h
  rw [← encode_padChars] at hchars
  rw [← encode_injective hchars] at hle
  refine Nat.le_trans ?_ hle
  cases m with
  | image =>
    exact @UnicodeTables.splitWordsFrom_tag _ hu 'i' hu.letter_i (by decide) _
  | video =>
    exact @UnicodeTables.splitWordsFrom_tag _ hu 'v' hu.letter_v (by decide) _

/-- What the front of a text matched. -/
theorem matchToken_some {byte : UInt8} {rest : Bytes} {token : AddedToken}
    (h : v.matchToken byte rest = some token) :
    token ∈ v.added ∧ encode token.content <+: byte :: rest
      ∧ encode token.content ≠ [] := by
  rw [matchToken_eq] at h
  unfold firstMatch at h
  have hmem := mem_of_find?_eq_some h
  have hfront := List.find?_some h
  exact ⟨hmem, isPrefixOf_iff_prefix.mp hfront,
    encode_ne_nil (v.added_content token hmem)⟩

/-- ASCII text has an id. -/
theorem encodeFrom_ascii_ne_nil (hu : u.ReadsAscii) :
    ∀ (fuel : Nat) (ordinary text : Bytes) (ids : List TokenId),
      text.length ≤ fuel → Ascii (ordinary ++ text) →
      ordinary ++ text ≠ [] → v.encodeFrom u fuel ordinary text = .ok ids →
      ids ≠ [] := by
  intro fuel
  induction fuel with
  | zero =>
    intro ordinary text ids hlen hascii hne h
    obtain rfl : text = [] := length_eq_zero_iff.mp (by omega)
    rw [append_nil] at hascii hne
    exact bpeIds_ne_nil hu hascii hne h
  | succ fuel ih =>
    intro ordinary text ids hlen hascii hne h
    cases text with
    | nil =>
      rw [append_nil] at hascii hne
      exact bpeIds_ne_nil hu hascii hne h
    | cons byte rest =>
      rw [encodeFrom] at h
      split at h
      · refine ih _ rest ids ?_ ?_ ?_ h
        · rw [length_cons] at hlen
          omega
        · rw [append_assoc]
          exact hascii
        · simp
      · split at h
        · cases h
        · next first _ =>
          cases hmore : v.encodeFrom u fuel [] ((byte :: rest).drop
              (encode _).length) with
          | error e =>
            rw [hmore] at h
            cases h
          | ok more =>
            rw [hmore] at h
            cases h
            simp

/-- A pad with one id is an added token. -/
theorem encodeFrom_pad (hu : u.ReadsAscii) (m : PromptModality) :
    ∀ (fuel : Nat) (ordinary text : Bytes) (id : TokenId),
      text.length ≤ fuel → ordinary ++ text = padOf m →
      v.encodeFrom u fuel ordinary text = .ok [id] →
      ∃ token ∈ v.added, (token.id : Int) = id
        ∧ encode token.content = padOf m := by
  intro fuel
  induction fuel with
  | zero =>
    intro ordinary text id hlen hpad h
    obtain rfl : text = [] := length_eq_zero_iff.mp (by omega)
    rw [append_nil] at hpad
    rw [hpad] at h
    have hmany := bpeIds_pad hu m h
    rw [length_singleton] at hmany
    omega
  | succ fuel ih =>
    intro ordinary text id hlen hpad h
    have hascii := padOf_ascii m
    rw [← hpad] at hascii
    cases text with
    | nil =>
      rw [append_nil] at hpad
      rw [hpad] at h
      have hmany := bpeIds_pad hu m h
      rw [length_singleton] at hmany
      omega
    | cons byte rest =>
      rw [encodeFrom] at h
      split at h
      · refine ih _ rest id ?_ ?_ h
        · rw [length_cons] at hlen
          omega
        · rw [append_assoc]
          exact hpad
      · next token hmatch =>
        obtain ⟨hmem, hfront, hne⟩ := matchToken_some hmatch
        cases hfirst : v.bpeIds u ordinary with
        | error e =>
          rw [hfirst] at h
          cases h
        | ok first =>
          rw [hfirst] at h
          dsimp only at h
          cases hmore : v.encodeFrom u fuel [] ((byte :: rest).drop
              (encode token.content).length) with
          | error e =>
            rw [hmore] at h
            cases h
          | ok more =>
            rw [hmore] at h
            have hids := Except.ok.inj h
            dsimp only at hids
            -- Neither ordinary text before it nor anything after.
            have hlength := congrArg List.length hids
            simp only [length_append, length_cons, length_nil] at hlength
            have hbefore : ordinary = [] := by
              by_contra hne
              refine bpeIds_ne_nil hu (fun b hb =>
                hascii b (mem_append_left _ hb)) hne hfirst
                (length_eq_zero_iff.mp (by omega))
            have hafter : (byte :: rest).drop
                (encode token.content).length = [] := by
              by_contra hne'
              refine encodeFrom_ascii_ne_nil hu fuel [] _ more ?_ ?_ hne'
                hmore (length_eq_zero_iff.mp (by omega))
              · rw [length_drop]
                have hpos := length_pos_iff.mpr hne
                omega
              · exact fun b hb => hascii b
                  (mem_append_right _ (mem_of_mem_drop hb))
            obtain ⟨tail, htail⟩ := hfront
            rw [← htail, drop_left' rfl] at hafter
            rw [hbefore, nil_append, ← htail, hafter, append_nil] at hpad
            have hfirstNil : first = [] :=
              length_eq_zero_iff.mp (by omega)
            rw [hfirstNil, nil_append] at hids
            exact ⟨token, hmem, (List.cons.inj hids).1, hpad⟩

/-- The token of a pad. -/
def tokenOf : PromptModality → Int
  | .image => imageToken
  | .video => videoToken

/-- The processor's pads are added tokens. -/
theorem pad_added (p : Processor) (hu : p.tables.ReadsAscii)
    (m : PromptModality) :
    ∃ token ∈ p.vocabulary.added, (token.id : Int) = tokenOf m
      ∧ encode token.content = padOf m := by
  have hencode : p.vocabulary.encodeText p.tables (padOf m) true
      = .ok [tokenOf m] := by
    cases m with
    | image => exact p.image_pad
    | video => exact p.video_pad
  unfold encodeText at hencode
  rw [if_neg (by cases m <;> decide), if_neg (by decide)] at hencode
  exact encodeFrom_pad hu m _ [] (padOf m) _ (Nat.le_refl _) rfl hencode

/-- The pad a token is. -/
def modalityOf (id : TokenId) : Option PromptModality :=
  if id = imageToken then some .image
  else if id = videoToken then some .video
  else none

theorem modalityOf_eq_some {id : TokenId} {m : PromptModality} :
    modalityOf id = some m ↔ id = tokenOf m := by
  unfold modalityOf
  cases m with
  | image =>
    by_cases himage : id = imageToken
    · simp [himage, tokenOf]
    · rw [if_neg himage]
      split <;> simp [tokenOf, himage]
  | video =>
    by_cases himage : id = imageToken
    · simp [himage, tokenOf, imageToken, videoToken]
    · rw [if_neg himage]
      by_cases hvideo : id = videoToken
      · simp [hvideo, tokenOf]
      · simp [hvideo, tokenOf]

variable (p : Processor) (hu : p.tables.ReadsAscii)

include p hu

/-- An added token that is a pad token is the pad. -/
theorem content_of_modalityOf
    {token : AddedToken} (hmem : token ∈ p.vocabulary.added)
    {m : PromptModality} (h : modalityOf (token.id : Int) = some m) :
    encode token.content = padOf m := by
  obtain ⟨pad, hpad, hid, hcontent⟩ := pad_added p hu m
  rw [modalityOf_eq_some, ← hid, Int.natCast_inj] at h
  rw [inj_on_of_nodup_map p.vocabulary.added_ids hmem hpad h]
  exact hcontent

/-- An ordinary token is no pad. -/
theorem modalityOf_ordinary {id : TokenId} (h : p.vocabulary.Ordinary id) :
    modalityOf id = none := by
  cases hm : modalityOf id with
  | none => rfl
  | some m =>
    obtain ⟨entry, hentry, rfl⟩ := h
    obtain ⟨pad, hpad, hid, -⟩ := pad_added p hu m
    rw [modalityOf_eq_some, ← hid, Int.natCast_inj] at hm
    exact absurd hm.symm (p.vocabulary.added_apart pad hpad entry hentry)

/-- The pads among the ids are pads of the text, in order. -/
theorem encodeFrom_pads :
    ∀ (fuel : Nat) (ordinary text : Bytes) (ids : List TokenId),
      text.length ≤ fuel →
      p.vocabulary.encodeFrom p.tables fuel ordinary text = .ok ids →
      (ids.filterMap modalityOf).Sublist (padsOf text) := by
  have hnone : ∀ (text : Bytes) (ids : List TokenId),
      p.vocabulary.bpeIds p.tables text = .ok ids →
      ids.filterMap modalityOf = [] := by
    intro text ids h
    rw [filterMap_eq_nil_iff]
    intro id hid
    exact modalityOf_ordinary p hu (bpeIds_ordinary h id hid)
  intro fuel
  induction fuel with
  | zero =>
    intro ordinary text ids hlen h
    rw [hnone ordinary ids h]
    exact nil_sublist _
  | succ fuel ih =>
    intro ordinary text ids hlen h
    cases text with
    | nil =>
      rw [hnone ordinary ids h]
      exact nil_sublist _
    | cons byte rest =>
      rw [length_cons] at hlen
      rw [encodeFrom] at h
      split at h
      · exact (ih _ rest ids (by omega) h).trans (sublist_append_right _ _)
      · next token hmatch =>
        obtain ⟨hmem, hfront, hne⟩ := matchToken_some hmatch
        have hpos := length_pos_iff.mpr hne
        cases hfirst : p.vocabulary.bpeIds p.tables ordinary with
        | error e =>
          rw [hfirst] at h
          cases h
        | ok first =>
          rw [hfirst] at h
          dsimp only at h
          cases hmore : p.vocabulary.encodeFrom p.tables fuel []
              ((byte :: rest).drop
                (encode token.content).length) with
          | error e =>
            rw [hmore] at h
            cases h
          | ok more =>
            rw [hmore] at h
            cases h
            have hdrop : (byte :: rest).drop (encode token.content).length
                = rest.drop ((encode token.content).length - 1) := by
              conv_lhs => rw [← Nat.sub_add_cancel hpos]
              rw [drop_succ_cons]
            have hlast := ih [] _ more (by
              rw [hdrop, length_drop]
              omega) hmore
            rw [hdrop] at hlast
            have hrest := hlast.trans (scan_drop_sublist padAt _ rest)
            rw [filterMap_append, hnone ordinary first hfirst,
              nil_append, filterMap_cons]
            cases hm : modalityOf (token.id : Int) with
            | none =>
              exact hrest.trans (sublist_append_right _ _)
            | some m =>
              rw [content_of_modalityOf p hu hmem hm] at hfront
              unfold padsOf
              rw [scan, padAt_of_prefix hfront]
              exact hrest.cons_cons m

/-- The pads among the ids of a text are pads of it, in order. -/
theorem encodeText_pads {text : Bytes} {ids : List TokenId}
    (h : p.vocabulary.encodeText p.tables text true = .ok ids) :
    (ids.filterMap modalityOf).Sublist (padsOf text) := by
  unfold encodeText at h
  split at h
  · cases h
    exact nil_sublist _
  · rw [if_neg (by decide)] at h
    exact encodeFrom_pads p hu _ [] text ids (Nat.le_refl _) h

omit p hu

end Multimodal

end Ginfer.Frontend
