/-
Clearing pages of the storage planes (`PagedKVPool::zero_pages` of
core/paged_kv_cache.cpp).

The planes are device memory at fixed addresses; a fill is the list of
the addresses it stores to, with what it stores. `cudaMemset2DAsync`
refuses a width over its pitch.
-/
import Ginfer.Layout.Builder

namespace Ginfer.Pool.ZeroPages

open Ginfer.Lib
open Ginfer.Layout

-- ============ fills

/-- Addresses in the order they are stored to, with the bytes stored. -/
abbrev Fill := List (Nat × UInt8)

/-- `cudaMemsetAsync`. -/
def memsetAsync (pointer : Nat) (value : UInt8) (count : Nat) : Fill :=
  (List.range count).map fun i => (pointer + i, value)

/-- `cudaMemset2DAsync`, under `CUDA_CHECK`. -/
def memset2DAsync (pointer pitch : Nat) (value : UInt8)
    (width height : Nat) : Except Exception Fill :=
  if pitch < width then .error .device
  else .ok ((List.range height).flatMap fun row =>
    memsetAsync (pointer + row * pitch) value width)

-- ============ the pool

/-- A plane bound into the backing, with what it was planned from. -/
structure Plane where
  data : Nat
  spec : PagedKVPlaneSpec
  tensor : Tensor

/-- `plane.nb[i]`. -/
def Plane.nb (plane : Plane) (i : Nat) : Nat := (plane.tensor.nb.getD i 0).toNat

/-- `plane.ne[i]`. -/
def Plane.ne (plane : Plane) (i : Nat) : Nat := (plane.tensor.ne.getD i 0).toNat

/-- Two planes share no byte. -/
def Plane.Apart (a b : Plane) : Prop :=
  a.data + a.nb 3 * a.ne 3 ≤ b.data ∨ b.data + b.nb 3 * b.ne 3 ≤ a.data

/-- The storage of a pool: planes of its page count and order, in regions
of their own. -/
structure PlanePool where
  planeOrder : PagedKVPlaneOrder
  pageGroupCount : Nat
  planes : List Plane
  made : ∀ plane ∈ planes, Tensor.make plane.spec.dtype
    (plane.spec.shape planeOrder pageGroupCount) = .ok plane.tensor
  apart : planes.Pairwise Plane.Apart

/-- The planes at the regions planned for them: the constructor's loop. -/
def bindPlanes (order : PagedKVPlaneOrder) (pages : Int) (backing : Nat) :
    List PagedKVPlaneSpec → List (String × LayoutRegion) → List Plane
  | spec :: specs, (_, region) :: regions =>
    match Tensor.make spec.dtype (spec.shape order pages) with
    | .ok tensor =>
      ⟨backing + region.offset, spec, tensor⟩
        :: bindPlanes order pages backing specs regions
    | .error _ => bindPlanes order pages backing specs regions
  | _, _ => []

/-- The body of `zero_run` for a plane. -/
def zeroPlane (order : PagedKVPlaneOrder) (first : Int) (count : Nat)
    (plane : Plane) : Except Exception Fill :=
  match order with
  | .pageMajor =>
    .ok (memsetAsync (plane.data + first.toNat * plane.nb 3) 0
      (count * plane.nb 3))
  | .headMajor =>
    memset2DAsync (plane.data + first.toNat * plane.nb 2) (plane.nb 3) 0
      (count * plane.nb 2) (plane.ne 3)

/-- How many pages follow a page consecutively, and the rest. -/
def follow (page : Int) : List Int → Nat × List Int
  | [] => (0, [])
  | next :: rest =>
    if next = page + 1 then
      ((follow next rest).1 + 1, (follow next rest).2)
    else (0, next :: rest)

theorem length_follow (page : Int) (rest : List Int) :
    (follow page rest).2.length ≤ rest.length := by
  induction rest generalizing page with
  | nil => exact Nat.le_refl 0
  | cons next rest ih =>
    unfold follow
    by_cases h : next = page + 1
    · rw [if_pos h]
      exact Nat.le_succ_of_le (ih next)
    · rw [if_neg h]

/-- The runs of the last loop: first page and length. -/
def runs : List Int → List (Int × Nat)
  | [] => []
  | page :: rest =>
    (page, (follow page rest).1 + 1) :: runs (follow page rest).2
termination_by sorted => sorted.length
decreasing_by exact Nat.lt_succ_of_le (length_follow page rest)

/-- `zero_pages`. -/
def PlanePool.zeroPages (pool : PlanePool) (pageIds : List Int) :
    Except Exception Fill :=
  if pageIds = [] then .ok []
  else
    let sorted := pageIds.mergeSort (· ≤ ·)
    if sorted.headD 0 < 0 ∨ (pool.pageGroupCount : Int) ≤ sorted.getLastD 0 then
      .error (.outOfRange "Paged KV physical page is out of range")
    else if ¬ sorted.IsChain (· ≠ ·) then
      .error (.invalidArgument "Paged KV physical pages must be distinct")
    else do
      let fills ← (runs sorted).mapM fun run =>
        pool.planes.mapM (zeroPlane pool.planeOrder run.1 run.2)
      return fills.flatten.flatten

end Ginfer.Pool.ZeroPages
