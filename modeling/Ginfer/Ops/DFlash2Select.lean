/-
The proposals of a DFlash2 row (ops/launcher/dflash2_select.cu).

`select_path_kernel` draws a row's drafts one after the other, each from
the selector's distribution after the drafts before it;
`dflash2_fuse_context_copy_kernel` puts tokens copied from the context in
their place, each as a certain proposal. The selector's scores and their
softmax are a parameter.
-/
import Ginfer.Ops.Sampling

namespace Ginfer.Ops

variable {K : Type} [Field K] [LinearOrder K]

/-- The loop of `select_path_kernel` for a sampled row: the first `n`
drafts. The kernel's selector reads the last of them (its
`predecessor`). -/
def selectPath (selector : List Token → List (Token × K)) (length : Int)
    (uniform : Uniform K) : Nat → List Token
  | 0 => []
  | n + 1 =>
    let path := selectPath selector length uniform n
    path ++
      [selectPick (selector path) (uniform (length + 1 + n, .dflashSelect))]

/-- A column of `dflash2_fuse_context_copy_kernel` within the context
extent: the copied token at rank zero, and zeros. -/
def copiedColumn (token : Token) (padding : Nat) : List (Token × K) :=
  (token, 1) :: List.replicate padding (0, 0)

end Ginfer.Ops
