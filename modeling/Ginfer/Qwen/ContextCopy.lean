/-
Context-copy drafts (targets/qwen3_6/impl/runtime/context_copy.h).

A lane of the sampled DFlash target may propose, instead of the draft
model's tokens, the tokens that followed an earlier occurrence of its
current suffix. The index holds the ends of all six-token windows by
hash; `find` compares the windows themselves, extends a candidate
backwards to twelve tokens, and takes the longest match, the most recent
one among equals. The unordered map's bucket of a hash is the sublist of
`ends` with that hash, oldest first. Ends and counts are 32-bit words.
-/
import Mathlib.Data.UInt

namespace Ginfer.Qwen

/-- `kContextCopyMinimumMatch`. -/
def contextCopyMinimumMatch : Nat := 6

/-- `kContextCopyMaximumMatch`. -/
def contextCopyMaximumMatch : Nat := 12

/-- `kContextCopyMaximumDrafts`. -/
def contextCopyMaximumDrafts : Nat := 15

/-- `ContextCopyMatch`; its tokens are the valid ones. -/
structure ContextCopyMatch where
  tokens : List Int
  matchLength : Nat

namespace ContextCopyMatch

/-- The default match. -/
def none : ContextCopyMatch := ⟨[], 0⟩

/-- `valid_tokens`. -/
def validTokens (m : ContextCopyMatch) : Nat := m.tokens.length

end ContextCopyMatch

/-- `use_wide_context_copy`; a row is its match's valid tokens and the
lane's confirmations. -/
def useWideContextCopy (rows : List (Nat × Nat))
    (learnedDrafts targetDrafts : Nat) (requiresWideAppend : Bool) : Bool :=
  if rows.isEmpty || learnedDrafts == 0
      || decide (targetDrafts ≤ learnedDrafts) then false
  else
    requiresWideAppend
      || rows.all fun row => decide (2 ≤ row.2 ∧ learnedDrafts < row.1)

/-- `ContextCopyIndex`. -/
structure ContextCopyIndex where
  ends : List (UInt64 × Nat)
  indexedTokens : Nat

namespace ContextCopyIndex

/-- `clear`. -/
def empty : ContextCopyIndex := ⟨[], 0⟩

/-- `mix`. -/
def mix (hash : UInt64) (token : Int) : UInt64 :=
  (hash ^^^ (token % 2 ^ 32).toNat.toUInt64) * 1099511628211

/-- `window_hash`. -/
def windowHash (tokens : List Int) (stop : Nat) : UInt64 :=
  ((tokens.drop (stop + 1 - contextCopyMinimumMatch)).take
    contextCopyMinimumMatch).foldl mix 1469598103934665603

/-- The loop of `append`. -/
def appendFrom (index : ContextCopyIndex) (tokens : List Int) :
    ContextCopyIndex :=
  let first := max index.indexedTokens (contextCopyMinimumMatch - 1)
  { ends := index.ends
      ++ (List.range' first (tokens.length - first)).map fun stop =>
          (windowHash tokens stop, stop % 2 ^ 32)
    indexedTokens := tokens.length }

/-- `rebuild`. -/
def rebuild (tokens : List Int) : ContextCopyIndex :=
  empty.appendFrom tokens

/-- `append`. -/
def append (index : ContextCopyIndex) (tokens : List Int) :
    ContextCopyIndex :=
  if tokens.length < index.indexedTokens then rebuild tokens
  else index.appendFrom tokens

/-- `same_window`. -/
def sameWindow (tokens : List Int) (left right : Nat) : Bool :=
  (List.range contextCopyMinimumMatch).all fun i =>
    tokens.getD (left - i) 0 == tokens.getD (right - i) 0

/-- The backward extension of a candidate; `fuel` is what is left up to
the maximum match. -/
def extend (tokens : List Int) (candidate suffix : Nat) :
    (fuel length : Nat) → Nat
  | 0, length => length
  | fuel + 1, length =>
    if length ≤ candidate ∧ length ≤ suffix
        ∧ tokens.getD (candidate - length) 0 = tokens.getD (suffix - length) 0
    then extend tokens candidate suffix fuel (length + 1)
    else length

/-- The candidate loop of `find`: the best length and where it ends. -/
def best (tokens : List Int) (suffix : Nat) : List Nat → Nat × Nat → Nat × Nat
  | [], sofar => sofar
  | candidate :: rest, sofar =>
    if suffix ≤ candidate ∨ sameWindow tokens candidate suffix = false
    then best tokens suffix rest sofar
    else
      let length := extend tokens candidate suffix
        (contextCopyMaximumMatch - contextCopyMinimumMatch)
        contextCopyMinimumMatch
      best tokens suffix rest
        (if sofar.1 < length ∨ (length = sofar.1 ∧ sofar.2 < candidate)
         then (length, candidate) else sofar)

/-- `find`. -/
def find (index : ContextCopyIndex) (tokens : List Int)
    (maximumDrafts : Nat) : ContextCopyMatch :=
  let maximum := min maximumDrafts contextCopyMaximumDrafts
  if maximum = 0 ∨ tokens.length ≤ contextCopyMinimumMatch then .none
  else
    let suffix := tokens.length - 1
    let hash := windowHash tokens suffix
    let candidates := (index.ends.filter fun e => e.1 == hash).map Prod.snd
    let found := best tokens suffix candidates.reverse (0, 0)
    if found.1 = 0 then .none
    else
      ⟨(tokens.drop (found.2 + 1)).take
          (min maximum ((suffix - found.2) % 2 ^ 32)), found.1⟩

end ContextCopyIndex

end Ginfer.Qwen
