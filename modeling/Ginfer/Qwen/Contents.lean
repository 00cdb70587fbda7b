/-
What the device memory of a lane holds.

The host never reads the KV pages or the state slots back; it only keeps
frontiers that say how much of them is valid. To be able to say what they
contain, every modelled device call also updates a ghost: for each piece
of lane memory, the token identities that were executed to produce it.

A piece is `none` when nothing is known about it — never written, page
given back, or computed from something unknown. A forward pass at
positions `base ..` reads the current state slot and the text KV cells
below `base`; only when all of them are prefixes of one history does it
produce known columns (`LaneContents.read`).

The recurrent state (linear attention and convolution) is one history. A
text KV cell, a hidden column and a DFlash feature column are each the
history up to and including their token. An MTP cell is computed from a
hidden column, the embedding of the NEXT token, and a rope position. The
local DFlash context is cyclic: position `p` lives in slot `p` modulo its
capacity.
-/
import Ginfer.Qwen.Prompt

namespace Ginfer.Qwen

/-- What is embedded for one token: its id, or a Vision item's column. -/
structure Embedding where
  token : Int
  type : Nat
  item : Option VisionItem
  deriving DecidableEq

/-- The identity of one executed token. -/
structure TokenIdentity where
  input : Embedding
  position : Fin 3 → Int
  deriving DecidableEq

/-- Token identities in execution order. -/
abbrev History := List TokenIdentity

/-- The identity of a generated token, or of any token executed as plain
text at rope position `position`. -/
def TokenIdentity.text (token : Int) (position : Int) : TokenIdentity where
  input := ⟨token, 0, none⟩
  position := fun _ => position

/-- What an MTP KV cell was computed from. -/
structure MtpCell where
  hidden : History
  next : Embedding
  position : Fin 3 → Int

/-- The device memory of one lane. -/
structure LaneContents where
  textKV : Nat → Option History
  state : Option History
  checkpointState : Option History
  tailHidden : Option History
  checkpointHidden : Option History
  mtpKV : Nat → Option MtpCell
  localContext : Nat → Option History
  checkpointContext : Nat → Option History
  fullContext : Nat → Option History
  pendingFeatures : Nat → Option History

namespace LaneContents

/-- Nothing is known. -/
def unknown : LaneContents where
  textKV := fun _ => none
  state := none
  checkpointState := none
  tailHidden := none
  checkpointHidden := none
  mtpKV := fun _ => none
  localContext := fun _ => none
  checkpointContext := fun _ => none
  fullContext := fun _ => none
  pendingFeatures := fun _ => none

/-- The history a forward pass at positions `base ..` continues: the
state slot's, when the text KV cells below `base` belong to it. -/
def read (d : LaneContents) (base : Nat) : Option History :=
  d.state.bind fun h =>
    if h.length = base ∧ ∀ i < base, d.textKV i = some (h.take (i + 1))
    then some h else none

/-- The columns of a forward pass over `ids` that continues `from`. -/
def column (source : Option History) (ids : List TokenIdentity) (j : Nat) :
    Option History :=
  source.map fun h => h ++ ids.take (j + 1)

/-- Cells `base ..` are overwritten by the first `count` columns. -/
def writeCells {β : Type} (cells : Nat → β) (base count : Nat)
    (columns : Nat → β) : Nat → β :=
  fun i => if base ≤ i ∧ i < base + count then columns (i - base) else cells i

/-- The text KV writes of a forward pass over `ids` at `base ..`. -/
def writeText (d : LaneContents) (base : Nat) (ids : List TokenIdentity) :
    LaneContents :=
  { d with
    textKV := writeCells d.textKV base ids.length (column (d.read base) ids) }

/-- A forward pass that updates the state slot in place. -/
def execute (d : LaneContents) (base : Nat) (ids : List TokenIdentity) :
    LaneContents :=
  { d.writeText base ids with
    state := (d.read base).map (· ++ ids) }

/-- Positions `base ..` enter a cyclic context of capacity `capacity`. -/
def writeCyclic (capacity : Nat) (cells : Nat → Option History)
    (base : Nat) : (count : Nat) → (Nat → Option History) → Nat → Option History
  | 0, _ => cells
  | count + 1, columns =>
    Function.update (writeCyclic capacity cells base count columns)
      ((base + count) % capacity) (columns count)

/-- `dflash_append_context`: `count` feature columns enter the DFlash
context at positions `base ..`. -/
def appendContext (d : LaneContents) (capacity base count : Nat)
    (columns : Nat → Option History) : LaneContents :=
  { d with
    localContext := writeCyclic capacity d.localContext base count columns
    fullContext := writeCells d.fullContext base count columns }

/-- Pages are given back: the text cells from `textCells` on and the
backend cells from `backendCells` on are no longer the lane's. -/
def forget (d : LaneContents) (textCells backendCells : Nat) :
    LaneContents :=
  { d with
    textKV := fun i => if i < textCells then d.textKV i else none
    mtpKV := fun i => if i < backendCells then d.mtpKV i else none
    fullContext := fun i =>
      if i < backendCells then d.fullContext i else none }

end LaneContents

end Ginfer.Qwen
