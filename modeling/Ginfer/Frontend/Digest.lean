/-
The digest of media and templates
(targets/qwen3_6/impl/frontend/digest.cpp).

`std::uint32_t` is a word of 32 bits. The checkpoint is called with the
offset it is called at, so that any sequence of calls can be told apart;
what it throws leaves `sha256`.
-/
import Ginfer.Frontend.Text

namespace Ginfer.Frontend.Digest

abbrev Word := BitVec 32

def kRound : List Word := [
  0x428a2f98, 0x71374491, 0xb5c0fbcf, 0xe9b5dba5, 0x3956c25b, 0x59f111f1,
  0x923f82a4, 0xab1c5ed5, 0xd807aa98, 0x12835b01, 0x243185be, 0x550c7dc3,
  0x72be5d74, 0x80deb1fe, 0x9bdc06a7, 0xc19bf174, 0xe49b69c1, 0xefbe4786,
  0x0fc19dc6, 0x240ca1cc, 0x2de92c6f, 0x4a7484aa, 0x5cb0a9dc, 0x76f988da,
  0x983e5152, 0xa831c66d, 0xb00327c8, 0xbf597fc7, 0xc6e00bf3, 0xd5a79147,
  0x06ca6351, 0x14292967, 0x27b70a85, 0x2e1b2138, 0x4d2c6dfc, 0x53380d13,
  0x650a7354, 0x766a0abb, 0x81c2c92e, 0x92722c85, 0xa2bfe8a1, 0xa81a664b,
  0xc24b8b70, 0xc76c51a3, 0xd192e819, 0xd6990624, 0xf40e3585, 0x106aa070,
  0x19a4c116, 0x1e376c08, 0x2748774c, 0x34b0bcb5, 0x391c0cb3, 0x4ed8aa4a,
  0x5b9cca4f, 0x682e6ff3, 0x748f82ee, 0x78a5636f, 0x84c87814, 0x8cc70208,
  0x90befffa, 0xa4506ceb, 0xbef9a3f7, 0xc67178f2]

/-- A byte of a buffer, as a word. -/
def byteAt (bytes : Bytes) (i : Nat) : Word :=
  (bytes.getD i 0).toBitVec.setWidth 32

def loadBe32 (bytes : Bytes) : Word :=
  byteAt bytes 0 <<< 24 ||| byteAt bytes 1 <<< 16 ||| byteAt bytes 2 <<< 8
    ||| byteAt bytes 3

def storeBe32 (value : Word) : Bytes :=
  [⟨(value >>> 24).setWidth 8⟩, ⟨(value >>> 16).setWidth 8⟩,
    ⟨(value >>> 8).setWidth 8⟩, ⟨value.setWidth 8⟩]

/-- The message schedule of `process_block`: the words so far, one more. -/
def nextWord (words : List Word) (i : Nat) : List Word :=
  let word := fun j => words.getD j 0
  let s0 := (word (i - 15)).rotateRight 7 ^^^ (word (i - 15)).rotateRight 18
    ^^^ (word (i - 15)) >>> 3
  let s1 := (word (i - 2)).rotateRight 17 ^^^ (word (i - 2)).rotateRight 19
    ^^^ (word (i - 2)) >>> 10
  words ++ [word (i - 16) + s0 + word (i - 7) + s1]

/-- The words of a block. -/
def blockWords (block : Bytes) : List Word :=
  (List.range' 16 48).foldl nextWord
    ((List.range 16).map fun i => loadBe32 (block.drop (4 * i)))

/-- The variables `a` to `h` of `process_block`. -/
structure Round where
  a : Word
  b : Word
  c : Word
  d : Word
  e : Word
  f : Word
  g : Word
  h : Word

/-- The body of the loop over the words. -/
def roundStep (words : List Word) (r : Round) (i : Nat) : Round :=
  let sum1 := r.e.rotateRight 6 ^^^ r.e.rotateRight 11 ^^^ r.e.rotateRight 25
  let choose := (r.e &&& r.f) ^^^ (~~~r.e &&& r.g)
  let t1 := r.h + sum1 + choose + kRound.getD i 0 + words.getD i 0
  let sum0 := r.a.rotateRight 2 ^^^ r.a.rotateRight 13 ^^^ r.a.rotateRight 22
  let majority := (r.a &&& r.b) ^^^ (r.a &&& r.c) ^^^ (r.b &&& r.c)
  let t2 := sum0 + majority
  { h := r.g, g := r.f, f := r.e, e := r.d + t1
    d := r.c, c := r.b, b := r.a, a := t1 + t2 }

def processBlock (state : List Word) (block : Bytes) : List Word :=
  let word := fun i => state.getD i 0
  let r := (List.range 64).foldl (roundStep (blockWords block))
    ⟨word 0, word 1, word 2, word 3, word 4, word 5, word 6, word 7⟩
  [word 0 + r.a, word 1 + r.b, word 2 + r.c, word 3 + r.d,
    word 4 + r.e, word 5 + r.f, word 6 + r.g, word 7 + r.h]

def initialState : List Word := [0x6a09e667, 0xbb67ae85, 0x3c6ef372, 0xa54ff53a,
  0x510e527f, 0x9b05688c, 0x1f83d9ab, 0x5be0cd19]

variable {ε : Type}

/-- The loop over the whole blocks: the state and what is left of the
input. -/
def wholeBlocks (checkpoint : Option (Nat → Except ε Unit)) (offset : Nat)
    (input : Bytes) (state : List Word) : Except ε (List Word × Bytes) := do
  if 64 ≤ input.length then
    if offset % 2 ^ 20 = 0 then
      if let some call := checkpoint then call offset
    wholeBlocks checkpoint (offset + 64) (input.drop 64)
      (processBlock state (input.take 64))
  else return (state, input)
termination_by input.length
decreasing_by
  rw [List.length_drop]
  omega

/-- `tail_size`. -/
def tailSize (remaining : Nat) : Nat := if remaining < 56 then 64 else 128

/-- The tail of 128 bytes: what is left, the mark, and the length in bits
at the end of the used size. -/
def tail (rest : Bytes) (size : Nat) : Bytes :=
  let copied := rest ++ List.replicate (128 - rest.length) 0
  let marked := copied.set rest.length 0x80
  let bits := size * 8 % 2 ^ 64
  (List.range 8).foldl
    (fun t i => t.set (tailSize rest.length - 1 - i)
      (UInt8.ofNat (bits >>> (8 * i)))) marked

/-- `sha256`; an input too large to count in bits is refused. -/
def sha256 (tooLarge : ε) (input : Bytes)
    (checkpoint : Option (Nat → Except ε Unit)) : Except ε Bytes := do
  if (2 ^ 64 - 1) / 8 < input.length then throw tooLarge
  let (state, rest) ← wholeBlocks checkpoint 0 input initialState
  let tail := tail rest input.length
  let state := processBlock state (tail.take 64)
  let state :=
    if tailSize rest.length = 128 then
      processBlock state ((tail.drop 64).take 64)
    else state
  return state.flatMap storeBe32

end Ginfer.Frontend.Digest
