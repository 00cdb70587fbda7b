/-
The digest is SHA-256.

Three correspondences, from the inside out: the words a block loads are
the words the standard parses (`loadBe32_eq`), so that a block of the code
is a compression of the standard (`processBlock_eq`); the tail is the last
part of the input with the standard's padding, whichever of its two sizes
is used (`tailBits`); and the loop over the whole blocks with the blocks
of the tail is the standard's pass over the padded message.
-/
import Ginfer.Frontend.Digest
import Ginfer.Lib.Sha256

namespace Ginfer.Frontend.Digest

open Ginfer.Lib Sha256 List

-- ============ bytes

/-- The bits of a byte string. -/
def bitsOf (bytes : Bytes) : List Bool :=
  bytes.flatMap fun b => bits 8 b.toNat

theorem bitsOf_append (a b : Bytes) : bitsOf (a ++ b) = bitsOf a ++ bitsOf b :=
  flatMap_append

theorem bitsOf_cons (b : UInt8) (rest : Bytes) :
    bitsOf (b :: rest) = bits 8 b.toNat ++ bitsOf rest := rfl

@[simp] theorem length_bitsOf (bytes : Bytes) :
    (bitsOf bytes).length = 8 * bytes.length := by
  induction bytes with
  | nil => rfl
  | cons b rest ih =>
    rw [bitsOf_cons, length_append, length_bits, ih, length_cons]
    omega

theorem drop_bitsOf (bytes : Bytes) (k : Nat) :
    (bitsOf bytes).drop (8 * k) = bitsOf (bytes.drop k) := by
  induction k generalizing bytes with
  | zero => rfl
  | succ k ih =>
    cases bytes with
    | nil => simp [bitsOf]
    | cons b rest =>
      have hfirst : (bitsOf (b :: rest)).drop 8 = bitsOf rest :=
        drop_left' (length_bits 8 b.toNat)
      rw [Nat.mul_succ, add_comm, ← drop_drop, hfirst, ih, drop_succ_cons]

theorem take_bitsOf (bytes : Bytes) (k : Nat) :
    (bitsOf bytes).take (8 * k) = bitsOf (bytes.take k) := by
  induction k generalizing bytes with
  | zero => rfl
  | succ k ih =>
    cases bytes with
    | nil => simp [bitsOf]
    | cons b rest =>
      rw [bitsOf_cons, take_append, length_bits,
        take_of_length_le (by rw [length_bits]; omega),
        show 8 * (k + 1) - 8 = 8 * k by omega, ih, take_succ_cons,
        bitsOf_cons]

/-- A whole number of pieces, in bytes and in bits. -/
theorem pieces_bitsOf {n : Nat} (hn : 0 < n) (bytes : Bytes) :
    pieces (8 * n) (bitsOf bytes)
      = (pieces n bytes).map bitsOf := by
  rw [pieces.eq_1 (8 * n), pieces.eq_1 n bytes]
  by_cases h : n ≤ bytes.length
  · rw [if_pos ⟨by omega, by rw [length_bitsOf]; omega⟩, if_pos ⟨hn, h⟩,
      take_bitsOf, drop_bitsOf, pieces_bitsOf hn, map_cons]
  · rw [if_neg (by rw [length_bitsOf]; omega), if_neg (by omega), map_nil]
termination_by bytes.length
decreasing_by
  rw [length_drop]
  omega

-- ============ words

/-- Shifted bytes do not meet. -/
theorem or_eq_add {a b i : Nat} (h : b < 2 ^ i) : a <<< i ||| b = a * 2 ^ i + b := by
  rw [Nat.shiftLeft_eq, mul_comm, Nat.two_pow_add_eq_or_of_lt h]

theorem loadBe32_toNat (bytes : Bytes) :
    (loadBe32 bytes).toNat
      = (((bytes.getD 0 0).toNat * 2 ^ 8 + (bytes.getD 1 0).toNat) * 2 ^ 8
        + (bytes.getD 2 0).toNat) * 2 ^ 8 + (bytes.getD 3 0).toNat := by
  have hbyte : ∀ i, (byteAt bytes i).toNat = (bytes.getD i 0).toNat := by
    intro i
    have hlt := (bytes.getD i 0).toNat_lt
    rw [byteAt, BitVec.toNat_setWidth, UInt8.toNat_toBitVec]
    omega
  have hlt : ∀ i, (bytes.getD i 0).toNat < 2 ^ 8 := fun i =>
    (bytes.getD i 0).toNat_lt
  have h0 := hlt 0
  have h1 := hlt 1
  have h2 := hlt 2
  have h3 := hlt 3
  have hshift : ∀ i s, s ≤ 24 → (byteAt bytes i <<< s).toNat
      = (bytes.getD i 0).toNat <<< s := by
    intro i s hs
    have hpow : 2 ^ s ≤ 2 ^ 24 := Nat.pow_le_pow_right (by decide) hs
    have hfits : (bytes.getD i 0).toNat * 2 ^ s < 2 ^ 8 * 2 ^ 24 :=
      Nat.mul_lt_mul_of_lt_of_le (hlt i) hpow (by decide)
    rw [BitVec.toNat_shiftLeft, hbyte, Nat.shiftLeft_eq]
    exact Nat.mod_eq_of_lt hfits
  rw [loadBe32, BitVec.toNat_or, BitVec.toNat_or, BitVec.toNat_or,
    hshift 0 24 (by decide), hshift 1 16 (by decide), hshift 2 8 (by decide),
    hbyte 3, Nat.or_assoc, or_eq_add h3, Nat.or_assoc,
    or_eq_add (i := 16) (by omega), or_eq_add (i := 24) (by omega)]
  ring

/-- The code loads the word the standard parses. -/
theorem loadBe32_eq {bytes : Bytes} (h : 4 ≤ bytes.length) :
    loadBe32 bytes
      = BitVec.ofNat 32 (number ((bitsOf bytes).take 32)) := by
  obtain ⟨b0, b1, b2, b3, rest, rfl⟩ :
      ∃ b0 b1 b2 b3 rest, bytes = b0 :: b1 :: b2 :: b3 :: rest := by
    match bytes, h with
    | b0 :: b1 :: b2 :: b3 :: rest, _ => exact ⟨b0, b1, b2, b3, rest, rfl⟩
  have hbytes : number (bitsOf [b0, b1, b2, b3])
      = ((b0.toNat * 2 ^ 8 + b1.toNat) * 2 ^ 8 + b2.toNat) * 2 ^ 8
        + b3.toNat := by
    have hnil : number [] = 0 := rfl
    rw [show bitsOf [b0, b1, b2, b3]
        = [] ++ bits 8 b0.toNat ++ bits 8 b1.toNat
          ++ bits 8 b2.toNat ++ bits 8 b3.toNat by
        simp [bitsOf], number_append_bits,
      number_append_bits, number_append_bits,
      number_append_bits, hnil, Nat.mod_eq_of_lt b0.toNat_lt,
      Nat.mod_eq_of_lt b1.toNat_lt, Nat.mod_eq_of_lt b2.toNat_lt,
      Nat.mod_eq_of_lt b3.toNat_lt, zero_mul, zero_add]
  have htake : (bitsOf (b0 :: b1 :: b2 :: b3 :: rest)).take 32
      = bitsOf [b0, b1, b2, b3] := take_bitsOf _ 4
  rw [htake, hbytes]
  refine BitVec.eq_of_toNat_eq ?_
  have hlt := (loadBe32 (b0 :: b1 :: b2 :: b3 :: rest)).isLt
  rw [loadBe32_toNat] at hlt
  rw [loadBe32_toNat, BitVec.toNat_ofNat, Nat.mod_eq_of_lt]
  · rfl
  · exact hlt

/-- A stored word is its bits. -/
theorem bitsOf_storeBe32 (value : Word) :
    bitsOf (storeBe32 value) = bits 32 value.toNat := by
  have hbyte : ∀ x : Word, bits 8 (UInt8.toNat ⟨x.setWidth 8⟩)
      = bits 8 x.toNat := by
    intro x
    show bits 8 (x.setWidth 8).toNat = _
    rw [BitVec.toNat_setWidth, bits_mod]
  have hshift : ∀ s, (value >>> s).toNat = value.toNat / 2 ^ s := by
    intro s
    rw [BitVec.toNat_ushiftRight, Nat.shiftRight_eq_div_pow]
  rw [storeBe32, bitsOf_cons, bitsOf_cons, bitsOf_cons, bitsOf_cons, hbyte,
    hbyte, hbyte, hbyte, hshift, hshift, hshift,
    bits_append 24 8, bits_append 16 8, bits_append 8 8,
    Nat.div_div_eq_div_mul, Nat.div_div_eq_div_mul]
  simp [bitsOf, Nat.div_div_eq_div_mul]

-- ============ blocks

/-- The words so far, with one more. -/
theorem blockWords_fold {block : Bytes} (h : block.length = 64) {n : Nat}
    (hn : n ≤ 48) :
    (List.range' 16 n).foldl nextWord
        ((List.range 16).map fun i => loadBe32 (block.drop (4 * i)))
      = (List.range (16 + n)).map (schedule (bitsOf block)) := by
  induction n with
  | zero =>
    refine map_congr_left fun i hi => ?_
    have hlt := mem_range.mp hi
    rw [schedule, if_neg (by omega), blockWord,
      show 32 * i = 8 * (4 * i) by ring, drop_bitsOf,
      loadBe32_eq (by rw [length_drop]; omega)]
  | succ n ih =>
    have hword : ∀ j, j < 16 + n →
        ((range (16 + n)).map (schedule (bitsOf block))).getD j 0
        = schedule (bitsOf block) j := by
      intro j hj
      simp [getD_eq_getElem?_getD, hj]
    rw [range'_concat, foldl_append, ih (by omega),
      foldl_cons, foldl_nil, nextWord, ← add_assoc,
      range_succ, map_append, map_cons, map_nil]
    congr 2
    dsimp only
    rw [one_mul, hword _ (by omega), hword _ (by omega),
      hword _ (by omega), hword _ (by omega),
      schedule.eq_1 _ (16 + n), if_pos (by omega),
      smallSigma0, smallSigma1]
    ac_rfl

theorem kRound_eq : kRound = constants := by decide +kernel

theorem initialState_eq : initialState = initial := by decide +kernel

/-- The variables of a round, under the standard's names. -/
def Round.working (r : Round) : Working :=
  ⟨r.a, r.b, r.c, r.d, r.e, r.f, r.g, r.h⟩

theorem roundStep_working (words : List Word) (r : Round) (t : Nat) :
    (roundStep words r t).working
      = round r.working (kRound.getD t 0) (words.getD t 0) := rfl

theorem rounds_eq {block : Bytes} (h : block.length = 64) (r : Round)
    {steps : List Nat} (hsteps : ∀ t ∈ steps, t < 64) :
    (steps.foldl (roundStep (blockWords block)) r).working
      = steps.foldl (fun v t => round v (constants.getD t 0)
        (schedule (bitsOf block) t)) r.working := by
  induction steps generalizing r with
  | nil => rfl
  | cons t steps ih =>
    have hword : (blockWords block).getD t 0 = schedule (bitsOf block) t := by
      rw [blockWords, blockWords_fold h (le_refl 48)]
      simp [getD_eq_getElem?_getD, hsteps t (mem_cons_self)]
    rw [foldl_cons, foldl_cons, ih _ fun s hs => hsteps s (.tail t hs)]
    rw [roundStep_working, hword, kRound_eq]

/-- A block of the code is a compression of the standard. -/
theorem processBlock_eq {block : Bytes} (h : block.length = 64)
    {state : List Word} (hstate : state.length = 8) :
    processBlock state block = compress state (bitsOf block) := by
  obtain ⟨a, b, c, d, e, f, g, i, rfl⟩ :
      ∃ a b c d e f g i, state = [a, b, c, d, e, f, g, i] := by
    match state, hstate with
    | [a, b, c, d, e, f, g, i], _ => exact ⟨a, b, c, d, e, f, g, i, rfl⟩
  have hrounds := rounds_eq h ⟨a, b, c, d, e, f, g, i⟩
    (fun t (ht : t ∈ range 64) => mem_range.mp ht)
  unfold processBlock compress
  simp only [getD_cons_zero, getD_cons_succ]
  rw [show (⟨a, b, c, d, e, f, g, i⟩ : Working)
    = Round.working ⟨a, b, c, d, e, f, g, i⟩ from rfl, ← hrounds]
  simp only [Round.working, zipWith_cons_cons, zipWith_nil_right,
    BitVec.add_comm]

theorem length_processBlock (state : List Word) (block : Bytes) :
    (processBlock state block).length = 8 := rfl

-- ============ tail

/-- Storing below an end, downwards. -/
theorem foldl_set_down {α : Type} (f : Nat → α) (t : List α) {stop n : Nat}
    (hn : n ≤ stop) (hstop : stop ≤ t.length) :
    (List.range n).foldl (fun t i => t.set (stop - 1 - i) (f i)) t
      = t.take (stop - n) ++ ((List.range n).map f).reverse ++ t.drop stop := by
  induction n with
  | zero => simp
  | succ n ih =>
    have hlt : stop - (n + 1) < t.length := by omega
    have hlast : t.take (stop - n)
        = t.take (stop - (n + 1)) ++ [t[stop - (n + 1)]] := by
      rw [take_append_getElem]
      congr 1
      omega
    rw [range_succ, foldl_append, ih (by omega), foldl_cons,
      foldl_nil, hlast, append_assoc, append_assoc,
      append_assoc, show stop - 1 - n
        = (t.take (stop - (n + 1))).length by
          rw [length_take]
          omega, set_append_right _ _ (le_refl _), Nat.sub_self,
      singleton_append, set_cons_zero, map_append,
      reverse_append]
    simp

variable {rest : Bytes} (hrest : rest.length < 64)

include hrest

/-- The used part of the tail. -/
theorem take_tail (size : Nat) :
    (tail rest size).take (tailSize rest.length)
      = rest ++ (0x80 : UInt8) :: List.replicate (tailSize rest.length - 9 - rest.length) 0
        ++ ((List.range 8).map fun i =>
        UInt8.ofNat ((size * 8 % 2 ^ 64) >>> (8 * i))).reverse := by
  have hsize : rest.length + 9 ≤ tailSize rest.length ∧
      tailSize rest.length ≤ 128 := by
    unfold tailSize
    by_cases h : rest.length < 56
    · rw [if_pos h]
      omega
    · rw [if_neg h]
      omega
  have hmarked : (rest ++ replicate (128 - rest.length) (0 : UInt8)).set
      rest.length 0x80
      = rest ++ (0x80 : UInt8) :: replicate (127 - rest.length) 0 := by
    rw [set_append_right _ _ (le_refl _), Nat.sub_self,
      show 128 - rest.length = 127 - rest.length + 1 by omega,
      replicate_succ, set_cons_zero]
  have hlength : (rest ++ (0x80 : UInt8)
      :: replicate (127 - rest.length) 0).length = 128 := by
    simp
    omega
  rw [tail, hmarked, foldl_set_down _ _ (by omega) (by omega),
    take_append_of_le_length (by simp; omega), take_of_length_le
      (by simp; omega)]
  congr 1
  rw [take_append, take_of_length_le (by omega),
    show tailSize rest.length - 8 - rest.length
      = tailSize rest.length - 9 - rest.length + 1 by omega,
    take_succ_cons, take_replicate]
  congr 4
  omega

/-- In bits the used part is the rest of the message with the standard's
padding. -/
theorem bitsOf_take_tail {size : Nat} (hsize : size < 2 ^ 61)
    (hmod : size % 64 = rest.length) :
    bitsOf ((tail rest size).take (tailSize rest.length))
      = bitsOf rest ++ [true] ++ List.replicate (zeros (8 * size)) false
        ++ bits 64 (8 * size) := by
  have hmark : bits 8 (0x80 : UInt8).toNat
      = [true] ++ replicate 7 false := by decide
  have hzeros : ∀ n, bitsOf (replicate n 0)
      = replicate (8 * n) false := by
    intro n
    induction n with
    | zero => rfl
    | succ n ih =>
      rw [replicate_succ, bitsOf_cons, ih, Nat.mul_succ, add_comm,
        replicate_add]
      rfl
  have hcount : 7 + 8 * (tailSize rest.length - 9 - rest.length)
      = zeros (8 * size) := by
    unfold tailSize zeros
    by_cases h : rest.length < 56
    · rw [if_pos h]
      omega
    · rw [if_neg h]
      omega
  have hbyte : ∀ x, bits 8 (UInt8.ofNat x).toNat = bits 8 x := by
    intro x
    rw [UInt8.toNat_ofNat']
    exact bits_mod 8 x
  have hlength : bitsOf ((range 8).map fun i =>
      UInt8.ofNat ((size * 8 % 2 ^ 64) >>> (8 * i))).reverse
      = bits 64 (8 * size) := by
    rw [Nat.mod_eq_of_lt (by omega), mul_comm size]
    simp only [range_succ, range_zero, nil_append,
      map_cons, map_nil, cons_append, reverse_cons,
      reverse_nil, bitsOf_cons, hbyte, Nat.shiftRight_eq_div_pow]
    rw [bits_append 56 8, bits_append 48 8, bits_append 40 8, bits_append 32 8,
      bits_append 24 8, bits_append 16 8,
      bits_append 8 8]
    simp only [Nat.div_div_eq_div_mul, bitsOf, flatMap_nil,
      append_nil, append_assoc]
    norm_num
  rw [take_tail hrest, bitsOf_append, bitsOf_append, bitsOf_cons, hzeros,
    hmark, hlength, ← hcount, replicate_add]
  simp only [append_assoc]

omit hrest

-- ============ the whole

variable {ε : Type}

/-- The loop over the whole blocks. -/
theorem wholeBlocks_eq {checkpoint : Option (Nat → Except ε Unit)}
    (hquiet : ∀ call ∈ checkpoint, ∀ offset, call offset = .ok ())
    (offset : Nat) (input : Bytes) (state : List Word) :
    wholeBlocks checkpoint offset input state
      = .ok ((pieces 64 input).foldl processBlock state,
        input.drop (64 * (input.length / 64))) := by
  rw [wholeBlocks, pieces.eq_1 64 input]
  by_cases h : 64 ≤ input.length
  · have hloop := wholeBlocks_eq hquiet (offset + 64) (input.drop 64)
      (processBlock state (input.take 64))
    rw [drop_drop, length_drop, show 64
      + 64 * ((input.length - 64) / 64) = 64 * (input.length / 64) by omega]
      at hloop
    rw [if_pos h, if_pos (show 0 < 64 ∧ 64 ≤ input.length from ⟨by decide, h⟩),
      foldl_cons, ← hloop]
    by_cases hoffset : offset % 2 ^ 20 = 0
    · rw [if_pos hoffset]
      cases checkpoint with
      | none => rfl
      | some call =>
        show (call offset >>= fun _ => _) = _
        rw [hquiet call rfl offset]
        rfl
    · rw [if_neg hoffset]
  · rw [if_neg h, if_neg (show ¬(0 < 64 ∧ 64 ≤ input.length) from
      fun hpiece => h hpiece.2), show input.length / 64 = 0 by omega]
    rfl
termination_by input.length
decreasing_by
  rw [length_drop]
  omega

/-- Blocks of the code against compressions of the standard. -/
theorem foldl_processBlock {blocks : List Bytes}
    (h : ∀ block ∈ blocks, block.length = 64) {state : List Word}
    (hstate : state.length = 8) :
    blocks.foldl processBlock state
      = (blocks.map bitsOf).foldl compress state := by
  induction blocks generalizing state with
  | nil => rfl
  | cons block blocks ih =>
    rw [foldl_cons, ih (fun b hb => h b (.tail _ hb))
      (length_processBlock state block),
      processBlock_eq (h block (.head _)) hstate]
    rfl

/-- The one or two blocks of the tail. -/
theorem tail_blocks {rest : Bytes} (hrest : rest.length < 64) (size : Nat)
    (state : List Word) :
    (if tailSize rest.length = 128 then
        processBlock (processBlock state ((tail rest size).take 64))
        (((tail rest size).drop 64).take 64)
      else processBlock state ((tail rest size).take 64))
      = (pieces 64 ((tail rest size).take (tailSize rest.length))).foldl
        processBlock state := by
  have hlength : ∀ n, n ≤ tailSize rest.length →
      ((tail rest size).take n).length = n := by
    intro n hn
    have hused := congrArg length (take_tail hrest size)
    simp only [length_take, length_append, length_cons,
      length_replicate, length_reverse, length_map,
      length_range] at hused ⊢
    unfold tailSize at hused hn
    by_cases h : rest.length < 56
    · rw [if_pos h] at hused hn
      omega
    · rw [if_neg h] at hused hn
      omega
  have hlast : ∀ block : Bytes, block.length = 64 →
      pieces 64 block = [block] := by
    intro block hblock
    have h := pieces_append (by decide) hblock []
    rwa [append_nil, pieces_short (s := ([] : Bytes)) (by decide)] at h
  by_cases h : rest.length < 56
  · have hsize : tailSize rest.length = 64 := if_pos h
    rw [hsize] at hlength ⊢
    rw [if_neg (by decide), hlast _ (hlength 64 (le_refl _))]
    rfl
  · have hsize : tailSize rest.length = 128 := if_neg h
    rw [hsize] at hlength ⊢
    have hfirst := hlength 64 (by decide)
    have hsecond : (((tail rest size).drop 64).take 64).length = 64 := by
      have hall := hlength 128 (le_refl _)
      simp only [length_take, length_drop] at hall ⊢
      omega
    rw [if_pos rfl, show (128 : Nat) = 64 + 64 from rfl, take_add,
      pieces_append (by decide) hfirst, hlast _ hsecond]
    rfl

/-- The digest of the code is the standard's. -/
theorem sha256_standard (tooLarge : ε) {input : Bytes}
    (hsize : input.length < 2 ^ 61)
    {checkpoint : Option (Nat → Except ε Unit)}
    (hquiet : ∀ call ∈ checkpoint, ∀ offset, call offset = .ok ()) :
    ∃ digest, sha256 tooLarge input checkpoint = .ok digest ∧
      bitsOf digest = Sha256.digest (bitsOf input) := by
  obtain ⟨whole, rest, hinput, hwhole, hrest⟩ :
      ∃ whole rest : Bytes, input = whole ++ rest ∧
        whole.length = 64 * (input.length / 64) ∧
        rest = input.drop (64 * (input.length / 64)) :=
    ⟨_, _, (take_append_drop (64 * (input.length / 64)) input).symm, by
      rw [length_take]
      omega, rfl⟩
  have hlength : rest.length = input.length % 64 := by
    rw [hrest, length_drop]
    omega
  have hshort : rest.length < 64 := by omega
  -- The padded message, in bytes.
  have hpad : Sha256.pad (bitsOf input) = bitsOf
      (whole ++ (tail rest input.length).take (tailSize rest.length)) := by
    have hsplit : bitsOf input = bitsOf whole ++ bitsOf rest := by
      rw [← bitsOf_append, ← hinput]
    rw [bitsOf_append, bitsOf_take_tail hshort hsize hlength.symm, Sha256.pad,
      length_bitsOf, hsplit]
    simp only [append_assoc]
  have hblocks : Sha256.pieces 64 input = Sha256.pieces 64 whole := by
    rw [hinput, Sha256.pieces_whole_append (by decide) hwhole,
      Sha256.pieces_short hshort, append_nil]
  have hrun : sha256 tooLarge input checkpoint
      = .ok (((Sha256.pieces 64
          (whole ++ (tail rest input.length).take (tailSize rest.length))).foldl
            processBlock initialState).flatMap storeBe32) := by
    rw [sha256, if_neg (by omega)]
    show (wholeBlocks checkpoint 0 input initialState >>= _) = _
    rw [wholeBlocks_eq hquiet, hblocks, ← hrest,
      Sha256.pieces_whole_append (by decide) hwhole, foldl_append,
      ← tail_blocks hshort]
    rfl
  refine ⟨_, hrun, ?_⟩
  rw [foldl_processBlock (fun block => Sha256.length_of_mem_pieces) rfl,
    ← pieces_bitsOf (by decide), ← hpad, initialState_eq, Sha256.digest,
    bitsOf, flatMap_assoc]
  exact flatMap_congr fun word _ => bitsOf_storeBe32 word

/-- The bytes from 0 on: a whole block and 56 bytes, which with the mark and
the length take two blocks of tail. -/
def countingBytes : Bytes := (List.range 120).map UInt8.ofNat

theorem sha256_standard_counting :
    ∃ digest, sha256 () countingBytes (some fun _ => .ok ()) = .ok digest ∧
      bitsOf digest = Sha256.digest (bitsOf countingBytes) :=
  sha256_standard () (by decide) (fun call h offset => by
    cases h
    rfl)

end Ginfer.Frontend.Digest
