/-
The workspace and its dry run (core/layout.cpp, core/arena.cu).

A target's allocation helpers run twice: against a `WorkspaceLayoutBuilder`,
which only counts, and against the `DeviceArena` that is made as large as
the count. Both rewind to where they were when a scope ends.

The calls of such a helper are `WorkspaceCall`s. A run keeps, beside the
builder or the arena, the scopes that are open and the regions that are
live; either forgets what was allocated in a scope when it leaves it.
Addresses and sizes are 64-bit.
-/
import Ginfer.Layout.Builder

namespace Ginfer.Layout

open Ginfer.Lib
open Ginfer.KvCapacity (checkedAdd)

-- ============ the dry run

/-- `WorkspaceLayoutBuilder`. -/
structure WorkspaceLayoutBuilder where
  cursor : Nat := 0
  peak : Nat := 0
  deriving DecidableEq

namespace WorkspaceLayoutBuilder

/-- The cursor behind an allocation, and the peak it may raise. -/
def advance (b : WorkspaceLayoutBuilder) (cursor : Nat) :
    WorkspaceLayoutBuilder :=
  ⟨cursor, if b.peak < cursor then cursor else b.peak⟩

/-- `WorkspaceLayoutBuilder::alloc`. -/
def alloc (b : WorkspaceLayoutBuilder) (dtype : DType) (shape : List Int)
    (alignment : Nat) :
    Except Exception (Tensor × WorkspaceLayoutBuilder) := do
  let tensor ← Tensor.make dtype shape
  let cursor ← alignUp b.cursor alignment "workspace layout"
  let bytes ← tensor.bytes
  let cursor ← checkedAdd cursor bytes "workspace layout size overflow"
  return (tensor, b.advance cursor)

/-- `WorkspaceLayoutBuilder::alloc_bytes`. -/
def allocBytes (b : WorkspaceLayoutBuilder) (bytes alignment : Nat) :
    Except Exception WorkspaceLayoutBuilder :=
  if bytes = 0 then .ok b
  else do
    let cursor ← alignUp b.cursor alignment "workspace layout"
    let cursor ← checkedAdd cursor bytes "workspace layout size overflow"
    return b.advance cursor

/-- The end of a `Scope`. -/
def leave (b : WorkspaceLayoutBuilder) (savedCursor : Nat) :
    WorkspaceLayoutBuilder := { b with cursor := savedCursor }

/-- `WorkspaceLayoutBuilder::peak_bytes`. -/
def peakBytes (b : WorkspaceLayoutBuilder) (alignment : Nat) :
    Except Exception Nat :=
  alignUp b.peak alignment "workspace layout"

end WorkspaceLayoutBuilder

-- ============ the arena

/-- `DeviceSpan`; the address of a null pointer is 0. -/
structure DeviceSpan where
  data : Nat
  bytes : Nat

/-- `DeviceArena`. -/
structure DeviceArena where
  base : Nat
  cap : Nat
  off : Nat := 0
  peak : Nat := 0

/-- `checked_add_uintptr`. -/
def checkedAddUintptr (a b : Nat) : Except Exception Nat :=
  checkedAdd a b "arena address arithmetic overflow"

/-- `align_up_addr`. -/
def alignUpAddr (addr align : Nat) : Except Exception Nat :=
  (checkedAddUintptr addr (align - 1)).map (· &&& (2 ^ 64 - 1 - (align - 1)))

namespace DeviceArena

/-- The arena over storage that is allocated already. -/
def borrow (storage : DeviceSpan) : Except Exception DeviceArena :=
  if storage.data = 0 ∨ storage.bytes = 0 then
    .error (.invalidArgument "borrowed DeviceArena storage must be non-empty")
  else .ok { base := storage.data, cap := storage.bytes }

/-- `DeviceArena::alloc_bytes`. -/
def allocBytes (a : DeviceArena) (bytes align : Nat) :
    Except Exception (DeviceSpan × DeviceArena) :=
  if a.base = 0 then
    .error (.runtimeError "DeviceArena has no backing allocation")
  else if !isPowerOfTwo align then
    .error (.invalidArgument "arena alignment must be a nonzero power of two")
  else if bytes = 0 then
    .error (.invalidArgument "arena allocation must be nonzero")
  else do
    let currentAddr ← checkedAddUintptr a.base a.off
    let alignedAddr ← alignUpAddr currentAddr align
    let alignedOffset := alignedAddr - a.base
    if 2 ^ 64 - 1 < alignedOffset then
      throw (.overflowError "arena aligned offset overflows size_t")
    if 2 ^ 64 - 1 - alignedOffset < bytes then
      throw (.overflowError "arena allocation end offset overflows size_t")
    let stop := alignedOffset + bytes
    if a.cap < stop then throw .badAlloc
    return (⟨a.base + alignedOffset, bytes⟩,
      { a with off := stop, peak := if a.peak < stop then stop else a.peak })

/-- `DeviceArena::alloc`. -/
def alloc (a : DeviceArena) (dtype : DType) (shape : List Int)
    (align : Nat) : Except Exception (DeviceSpan × DeviceArena) := do
  let view ← Tensor.make dtype shape
  let bytes ← view.bytes
  a.allocBytes bytes align

/-- The end of a `Scope`. -/
def leave (a : DeviceArena) (savedOffset : Nat) : DeviceArena :=
  if savedOffset ≤ a.off then { a with off := savedOffset } else a

end DeviceArena

-- ============ the runs

/-- What a helper asks of its workspace: an allocation, or the begin or the
end of a scope. -/
inductive WorkspaceCall where
  | alloc (dtype : DType) (shape : List Int) (alignment : Nat)
  | allocBytes (bytes alignment : Nat)
  | enter
  | leave

/-- A dry run. A scope keeps the cursor it saved and the regions that were
live then, the last one first. -/
structure DryRun where
  builder : WorkspaceLayoutBuilder := {}
  scopes : List (Nat × List LayoutRegion) := []
  live : List LayoutRegion := []
  deriving DecidableEq

/-- The region that ends where an allocation left the cursor. -/
def DryRun.took (d : DryRun) (builder : WorkspaceLayoutBuilder)
    (bytes alignment : Nat) : DryRun :=
  { d with
    builder := builder
    live := ⟨builder.cursor - bytes, bytes, alignment⟩ :: d.live }

/-- One call of a dry run. Where no scope is open, none is left. -/
def DryRun.step (d : DryRun) : WorkspaceCall → Except Exception DryRun
  | .alloc dtype shape alignment => do
    let (tensor, builder) ← d.builder.alloc dtype shape alignment
    let bytes ← tensor.bytes
    return d.took builder bytes alignment
  | .allocBytes bytes alignment => do
    let builder ← d.builder.allocBytes bytes alignment
    return d.took builder bytes alignment
  | .enter =>
    .ok { d with scopes := (d.builder.cursor, d.live) :: d.scopes }
  | .leave =>
    match d.scopes with
    | [] => .ok d
    | (saved, live) :: rest => .ok ⟨d.builder.leave saved, rest, live⟩

/-- The calls of a helper, one after the other. -/
def DryRun.run (d : DryRun) (calls : List WorkspaceCall) :
    Except Exception DryRun :=
  calls.foldlM DryRun.step d

/-- A run on an arena; its regions are spans, with the alignments they were
asked for. -/
structure ArenaRun where
  arena : DeviceArena
  scopes : List (Nat × List (DeviceSpan × Nat)) := []
  live : List (DeviceSpan × Nat) := []

/-- A span that was handed out. -/
def ArenaRun.took (r : ArenaRun) (span : DeviceSpan) (arena : DeviceArena)
    (alignment : Nat) : ArenaRun :=
  { r with arena := arena, live := (span, alignment) :: r.live }

/-- One call of a run. -/
def ArenaRun.step (r : ArenaRun) : WorkspaceCall → Except Exception ArenaRun
  | .alloc dtype shape alignment => do
    let (span, arena) ← r.arena.alloc dtype shape alignment
    return r.took span arena alignment
  | .allocBytes bytes alignment => do
    let (span, arena) ← r.arena.allocBytes bytes alignment
    return r.took span arena alignment
  | .enter => .ok { r with scopes := (r.arena.off, r.live) :: r.scopes }
  | .leave =>
    match r.scopes with
    | [] => .ok r
    | (saved, live) :: rest => .ok ⟨r.arena.leave saved, rest, live⟩

/-- The calls of a helper, one after the other. -/
def ArenaRun.run (r : ArenaRun) (calls : List WorkspaceCall) :
    Except Exception ArenaRun :=
  calls.foldlM ArenaRun.step r

end Ginfer.Layout
