/-
The pages of a split (ops/kernel/paged_kv_address.cuh, and the page lists
of ops/kernel/gqa_attention_decode_{bf16,i8,d128}.cuh).

A block of a partial kernel reads the page table once: it keeps the
physical pages of its keys in an array of fixed size, and looks the page of
a key block up there. The three kernels do it in the same words, for their
own key block.
-/
import Ginfer.Ops.GqaAttentionDecode

namespace Ginfer.Ops

/-- `kPagedKVPageShift`. -/
def pagedKVPageShift : Nat := 6

/-- `PageIds`, the size of `physical_pages_s`. -/
def pageIds : Nat := 64

/-- `kGqaAttentionMaximumVisibleKeys`. -/
def gqaAttentionMaximumVisibleKeys : Nat := 262144

/-- `first_tile`, for a key block. -/
def firstTile (bc splitStart : Nat) : Nat := splitStart / bc * bc

/-- `key_blocks`. -/
def keyBlocks (bc splitStart splitEnd : Nat) : Nat :=
  divUp (splitEnd - firstTile bc splitStart) bc

/-- `first_page`. -/
def firstPage (bc splitStart : Nat) : Nat :=
  firstTile bc splitStart >>> pagedKVPageShift

/-- `page_count`. -/
def pageCount (bc splitStart splitEnd : Nat) : Nat :=
  (splitEnd - 1) >>> pagedKVPageShift - firstPage bc splitStart + 1

/-- The indices `physical_pages_s` is accessed at: those that are filled,
and the one of each key block. -/
def pageAccesses (bc splitStart splitEnd : Nat) : List Nat :=
  List.range (pageCount bc splitStart splitEnd) ++
    (List.range (keyBlocks bc splitStart splitEnd)).map fun kb =>
      (firstTile bc splitStart + kb * bc) >>> pagedKVPageShift
        - firstPage bc splitStart

/-- The key block of the partial kernel that is launched. -/
def GqaSmallTLaunch.keyBlock (l : GqaSmallTLaunch) : Nat :=
  if l.geometry.headDim = 128 then 32
  else
    match l.dtype with
    | .i8 => i8KeyBlock l.tokens l.envelope.maxVisibleKeys
    | .bf16 => 32

end Ginfer.Ops
