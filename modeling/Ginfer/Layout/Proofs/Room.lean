/-
Runs that stay below a limit.

`Fits limit Q r calls` is what a caller may rely on when it hands a helper
an arena with room up to a limit: at no point of the calls is the arena
beyond it, no allocation fails for want of room, and where all calls
return they end with `Q`. It composes over the calls (`Fits.append`), and
a scope gives back what its calls took (`scope_fits`). Allocations one
after the other need what a dry run from an empty builder counts
(`reserved`), behind the padding before the first of them.
-/
import Ginfer.Layout.Proofs.Workspace

namespace Ginfer.Layout

open Ginfer.Lib

-- ============ the rules

/-- The calls stay below the limit and end with `Q`, or one of them throws,
but not `std::bad_alloc`. -/
def Fits (limit : Nat) (Q : ArenaRun → Prop) :
    ArenaRun → List WorkspaceCall → Prop
  | r, [] => r.arena.off ≤ limit ∧ Q r
  | r, call :: rest =>
    r.arena.off ≤ limit ∧
      match r.step call with
      | .ok r' => Fits limit Q r' rest
      | .error e => e ≠ .badAlloc

variable {limit : Nat} {Q Q' : ArenaRun → Prop} {r : ArenaRun}

theorem Fits.mono {calls : List WorkspaceCall} (h : Fits limit Q r calls)
    (hQ : ∀ r', r'.arena.off ≤ limit → Q r' → Q' r') :
    Fits limit Q' r calls := by
  induction calls generalizing r with
  | nil => exact ⟨h.1, hQ r h.1 h.2⟩
  | cons call rest ih =>
    obtain ⟨hoff, hstep⟩ := h
    refine ⟨hoff, ?_⟩
    cases heq : r.step call with
    | ok r' =>
      rw [heq] at hstep
      exact ih hstep
    | error e =>
      rw [heq] at hstep
      exact hstep

/-- Sequencing. -/
theorem Fits.append {before after : List WorkspaceCall}
    (h : Fits limit (fun r' => Fits limit Q r' after) r before) :
    Fits limit Q r (before ++ after) := by
  induction before generalizing r with
  | nil => exact h.2
  | cons call rest ih =>
    obtain ⟨hoff, hstep⟩ := h
    refine ⟨hoff, ?_⟩
    cases heq : r.step call with
    | ok r' =>
      rw [heq] at hstep
      exact ih hstep
    | error e =>
      rw [heq] at hstep
      exact hstep

-- ============ scopes

/-- A run that is in the same storage and the same scopes, at an offset. -/
structure Keeps (r : ArenaRun) (off : Nat) (r' : ArenaRun) : Prop where
  base : r'.arena.base = r.arena.base
  cap : r'.arena.cap = r.arena.cap
  scopes : r'.scopes = r.scopes
  offset : r'.arena.off = off

/-- The begin of a scope. -/
def ArenaRun.entered (r : ArenaRun) : ArenaRun :=
  { r with scopes := (r.arena.off, r.live) :: r.scopes }

/-- A scope gives back what its calls took. -/
theorem scope_fits {calls : List WorkspaceCall} (hoff : r.arena.off ≤ limit)
    (h : Fits limit (fun r' => ∃ off, r.arena.off ≤ off
      ∧ Keeps r.entered off r') r.entered calls) :
    Fits limit (Keeps r r.arena.off) r
      (.enter :: calls ++ [.leave]) := by
  refine ⟨hoff, ?_⟩
  show Fits limit _ r.entered (calls ++ [.leave])
  refine Fits.append (h.mono ?_)
  rintro r' hlimit ⟨off, hle, hkeeps⟩
  refine ⟨hlimit, ?_⟩
  have hstep : r'.step .leave
      = .ok ⟨r'.arena.leave r.arena.off, r.scopes, r.live⟩ := by
    unfold ArenaRun.step
    rw [hkeeps.scopes]
    rfl
  have hleave : r'.arena.leave r.arena.off
      = { r'.arena with off := r.arena.off } :=
    if_pos (hkeeps.offset ▸ hle)
  rw [hstep, hleave]
  exact ⟨hoff, hkeeps.base, hkeeps.cap, rfl, rfl⟩

-- ============ allocations

/-- The offset behind tensors that are allocated one after the other. -/
def reserved (off : Nat) : List (DType × List Int) → Nat
  | [] => off
  | (dtype, shape) :: rest =>
    reserved (roundUp off 8 + elements shape * dtype.size) rest

/-- Their allocations, aligned as the workspace aligns by default. -/
def allocations (tensors : List (DType × List Int)) : List WorkspaceCall :=
  tensors.map fun (dtype, shape) => .alloc dtype shape 256

theorem le_reserved (tensors : List (DType × List Int)) :
    ∀ off, off ≤ reserved off tensors := by
  induction tensors with
  | nil => exact fun off => Nat.le_refl off
  | cons tensor rest ih =>
    intro off
    have hround := le_roundUp off 8
    exact Nat.le_trans (by omega) (ih _)

/-- An aligned offset moves them along. -/
theorem reserved_base {base : Nat} (hbase : 2 ^ 8 ∣ base)
    (tensors : List (DType × List Int)) :
    ∀ off, reserved (base + off) tensors = base + reserved off tensors := by
  induction tensors with
  | nil => exact fun off => rfl
  | cons tensor rest ih =>
    intro off
    unfold reserved
    rw [roundUp_base hbase, Nat.add_assoc, ih]

/-- Behind the padding before the first of them is what an empty arena
needs. -/
theorem reserved_padded {tensors : List (DType × List Int)}
    (hne : tensors ≠ []) (off : Nat) :
    reserved off tensors = roundUp off 8 + reserved 0 tensors := by
  cases tensors with
  | nil => exact absurd rfl hne
  | cons tensor rest =>
    unfold reserved
    rw [show roundUp 0 8 = 0 by decide, Nat.zero_add,
      ← reserved_base (dvd_roundUp off 8)]

theorem roundUp_mono {off off' k : Nat} (h : off ≤ off') :
    roundUp off k ≤ roundUp off' k :=
  Nat.mul_le_mul_right _ (Nat.div_le_div_right (by omega))

theorem reserved_mono {tensors tensors' : List (DType × List Int)}
    (h : List.Forall₂ (fun t t' => elements t.2 * t.1.size
      ≤ elements t'.2 * t'.1.size) tensors tensors') :
    ∀ {off off' : Nat}, off ≤ off' →
      reserved off tensors ≤ reserved off' tensors' := by
  induction h with
  | nil => exact fun hoff => hoff
  | cons hle _ ih =>
    intro off off' hoff
    have hround := roundUp_mono (k := 8) hoff
    exact ih (by omega)

-- ============ their sizes

theorem checkedMulI64_yields (a b : Int) :
    Yields (checkedMulI64 a b) (fun _ => True) (· ≠ .badAlloc) := by
  unfold checkedMulI64
  exact yields_guard (fun _ => nofun) fun _ =>
    yields_guard (fun _ => nofun) fun _ => trivial

theorem contiguousStrides_yields (shape : List Int) : ∀ stride : Int,
    Yields (contiguousStrides stride shape) (fun _ => True)
      (· ≠ .badAlloc) := by
  induction shape with
  | nil => exact fun _ => trivial
  | cons dim rest ih =>
    intro stride
    cases rest with
    | nil => exact trivial
    | cons dim' rest =>
      exact (checkedMulI64_yields stride dim).bind fun next _ =>
        (ih next).bind fun _ _ => trivial

/-- A tensor that cannot be made, or whose bytes overflow, is not a want of
room. -/
theorem make_yields (dtype : DType) (shape : List Int) :
    Yields (Tensor.make dtype shape) (fun _ => True) (· ≠ .badAlloc) := by
  unfold Tensor.make normalizeShape
  refine Yields.bind (Q := fun _ => True) ?_ fun ne _ =>
    (contiguousStrides_yields ne _).bind fun _ _ => trivial
  exact yields_guard (fun _ => nofun) fun _ =>
    yields_guard (fun _ => nofun) fun _ => trivial

/-- The bytes of a tensor that is made. -/
theorem tensorBytes_cases (dtype : DType) (shape : List Int) :
    ((Tensor.make dtype shape >>= Tensor.bytes)
        = .ok (elements shape * dtype.size)
      ∧ elements shape * dtype.size ≠ 0)
      ∨ ∃ e, (Tensor.make dtype shape >>= Tensor.bytes) = .error e
        ∧ e ≠ .badAlloc := by
  have hyields := make_yields dtype shape
  cases hmake : Tensor.make dtype shape with
  | error e =>
    rw [hmake] at hyields
    exact Or.inr ⟨e, rfl, hyields⟩
  | ok tensor =>
    obtain ⟨hne, hrank, hpos⟩ := make_ok hmake
    rcases @tensor_bytes _ dtype hne hrank hpos with
      hok | ⟨e, he, what, rfl⟩
    · rw [hmake] at hok
      exact Or.inl ⟨hok, bytes_ne_zero hmake hok⟩
    · rw [hmake] at he
      exact Or.inr ⟨_, he, nofun⟩

-- ============ their rooms

/-- Allocations for which there is room. -/
theorem allocations_fit (tensors : List (DType × List Int)) :
    ∀ r : ArenaRun, Backed r.arena.base r.arena.cap 256 →
      reserved r.arena.off tensors ≤ limit → limit ≤ r.arena.cap →
        Fits limit (Keeps r (reserved r.arena.off tensors)) r
        (allocations tensors) := by
  induction tensors with
  | nil => exact fun r _ hroom _ => ⟨hroom, rfl, rfl, rfl, rfl⟩
  | cons tensor rest ih =>
    obtain ⟨dtype, shape⟩ := tensor
    intro r hbacked hroom hcap
    have hend := le_reserved rest
      (roundUp r.arena.off 8 + elements shape * dtype.size)
    have hround := le_roundUp r.arena.off 8
    change reserved (roundUp r.arena.off 8 + elements shape * dtype.size)
      rest ≤ limit at hroom
    refine ⟨by omega, ?_⟩
    have hstep : r.step (.alloc dtype shape 256)
        = (Tensor.make dtype shape >>= Tensor.bytes) >>= fun bytes =>
          (r.arena.allocBytes bytes (2 ^ 8)).map fun p =>
            r.took p.1 p.2 256 := by
      show (r.arena.alloc dtype shape 256 >>= fun p =>
        Except.ok (r.took p.1 p.2 256)) = _
      unfold DeviceArena.alloc
      cases Tensor.make dtype shape with
      | error e => rfl
      | ok tensor =>
        rw [ok_bind, ok_bind]
        cases tensor.bytes with
        | error e => rfl
        | ok bytes =>
          rw [ok_bind, ok_bind]
          cases r.arena.allocBytes bytes 256 with
          | error e => rfl
          | ok taken => rfl
    rw [hstep]
    rcases tensorBytes_cases dtype shape with ⟨hbytes, hne⟩ | ⟨e, he, hnot⟩
    · obtain ⟨k, hk, hk64, hdvd⟩ :=
        hbacked.dvd hbacked.power (Nat.le_refl _)
      obtain rfl : k = 8 := Nat.pow_right_injective (Nat.le_refl 2)
        (hk.symm.trans (show 256 = 2 ^ 8 by rfl))
      obtain ⟨peak, halloc⟩ := arena_allocBytes hbacked.nonnull hdvd hk64
        hbacked.ends hne (by omega)
      rw [hbytes, ok_bind, halloc]
      have hrest := ih (r.took
          ⟨r.arena.base + roundUp r.arena.off 8, elements shape * dtype.size⟩
          { r.arena with
            off := roundUp r.arena.off 8 + elements shape * dtype.size
            peak := peak } 256) hbacked hroom hcap
      exact hrest.mono fun r' _ hkeeps =>
        ⟨hkeeps.base, hkeeps.cap, hkeeps.scopes, hkeeps.offset⟩
    · rw [he]
      exact hnot

-- ============ dry runs

/-- What a dry run of allocations counts. -/
theorem allocations_dry (tensors : List (DType × List Int)) :
    ∀ {d d' : DryRun}, d.builder.cursor < 2 ^ 64 →
      d.builder.cursor ≤ d.builder.peak → d.builder.peak < 2 ^ 64 →
        d.run (allocations tensors) = .ok d' →
        d'.builder.peak = max d.builder.peak (reserved d.builder.cursor tensors)
          ∧ d'.builder.peak < 2 ^ 64 := by
  induction tensors with
  | nil =>
    intro d d' _ hle hword hrun
    cases hrun
    exact ⟨(Nat.max_eq_left hle).symm, hword⟩
  | cons tensor rest ih =>
    obtain ⟨dtype, shape⟩ := tensor
    intro d d' hcursor hle hword hrun
    obtain ⟨middle, hstep, hrun⟩ := bind_ok.mp
      (show (d.step (.alloc dtype shape 256)
        >>= fun d => d.run (allocations rest)) = .ok d' from hrun)
    obtain ⟨⟨tensor, b⟩, halloc, hstep⟩ := bind_ok.mp hstep
    obtain ⟨bytes, hbytes, hstep⟩ := bind_ok.mp hstep
    cases hstep
    obtain ⟨hmake, -, hreserves⟩ := builder_alloc (k := 8) hcursor halloc hbytes
    obtain rfl : bytes = elements shape * dtype.size := by
      rcases tensorBytes_cases dtype shape with ⟨hok, -⟩ | ⟨e, he, -⟩
      · rw [hmake, ok_bind, hbytes] at hok
        exact Except.ok.inj hok
      · rw [hmake, ok_bind, hbytes] at he
        cases he
    have hpeak := hreserves.peak
    have hlast := hreserves.word
    have hend := hreserves.cursor
    have hmore := le_reserved rest b.cursor
    obtain ⟨hfinal, hfits⟩ := ih (d := d.took b _ 256) hlast
      (show b.cursor ≤ b.peak by omega) (show b.peak < 2 ^ 64 by omega) hrun
    refine ⟨?_, hfits⟩
    rw [hfinal]
    show max b.peak (reserved b.cursor rest)
      = max d.builder.peak (reserved
        (roundUp d.builder.cursor 8 + elements shape * dtype.size) rest)
    rw [← hend]
    omega

end Ginfer.Layout
