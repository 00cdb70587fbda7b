/-
A dry run is refined by the arena it measures.

An arena whose base is aligned as any allocation asks rounds its addresses
as the builder rounds its cursor (`alignUpAddr_base`). So, call by call, an
arena that has room for what the builder counted does the same
(`step_refines`): its regions are the builder's, moved to its base. The
builder's live regions are a stack under its cursor (`Stacked`), and the
cursor stays under the peak, which is what the arena has room for.
-/
import Ginfer.Layout.Proofs.Builder
import Ginfer.Layout.Workspace

namespace Ginfer.Layout

open Ginfer.Lib List
open Ginfer.KvCapacity (checkedAdd)

-- ============ the rounding

/-- The next multiple of `2 ^ k`. -/
def roundUp (value k : Nat) : Nat := (value + (2 ^ k - 1)) / 2 ^ k * 2 ^ k

theorem le_roundUp (value k : Nat) : value ≤ roundUp value k := by
  have hpos := Nat.two_pow_pos k
  have hdiv := Nat.div_add_mod (value + (2 ^ k - 1)) (2 ^ k)
  have hmod := Nat.mod_lt (value + (2 ^ k - 1)) hpos
  unfold roundUp
  rw [mul_comm]
  omega

theorem dvd_roundUp (value k : Nat) : 2 ^ k ∣ roundUp value k :=
  Nat.dvd_mul_left _ _

/-- An aligned base moves the rounding along. -/
theorem roundUp_base {base k : Nat} (hbase : 2 ^ k ∣ base) (value : Nat) :
    roundUp (base + value) k = base + roundUp value k := by
  obtain ⟨q, rfl⟩ := hbase
  unfold roundUp
  rw [add_assoc, Nat.mul_add_div (Nat.two_pow_pos k), add_mul, mul_comm q]

theorem isPowerOfTwo_iff {alignment : Nat} :
    isPowerOfTwo alignment = true ↔ ∃ k, alignment = 2 ^ k := by
  unfold isPowerOfTwo
  rw [Bool.and_eq_true, bne_iff_ne, beq_iff_eq]
  exact Nat.ne_zero_and_sub_one_eq_zero_iff_isPowerOfTwo

/-- What either rounding computes, once its sum has passed the check. -/
theorem mask_roundUp {value k : Nat} (hk : k ≤ 64)
    (hfits : value + (2 ^ k - 1) < 2 ^ 64) :
    (value + (2 ^ k - 1)) &&& (2 ^ 64 - 1 - (2 ^ k - 1))
      = roundUp value k := and_complement hfits hk

theorem alignUp_ok {value k rounded : Nat} {label : String}
    (hvalue : value < 2 ^ 64)
    (h : alignUp value (2 ^ k) label = .ok rounded) :
    rounded = roundUp value k ∧ rounded < 2 ^ 64 := by
  unfold alignUp at h
  rw [isPowerOfTwo_iff.mpr ⟨k, rfl⟩, Bool.not_true,
    if_neg Bool.false_ne_true] at h
  obtain ⟨sum, hsum, rfl⟩ := map_ok.mp h
  unfold checkedAdd at hsum
  rw [guard_ok] at hsum
  obtain ⟨hfits, hsum⟩ := hsum
  cases hsum
  have hpow : 2 ^ k ≤ 2 ^ 64 := by omega
  have hk : k ≤ 64 := (Nat.pow_le_pow_iff_right (by decide)).mp hpow
  exact ⟨mask_roundUp hk (by omega), lt_of_le_of_lt Nat.and_le_left (by omega)⟩

/-- An address below the end of the address space, where the rounding
stays below it. -/
theorem alignUpAddr_base {base off k : Nat} (hbase : 2 ^ k ∣ base)
    (hfits : base + roundUp off k < 2 ^ 64) (hk : k ≤ 64) :
    alignUpAddr (base + off) (2 ^ k) = .ok (base + roundUp off k) := by
  have hsum : base + off + (2 ^ k - 1) < 2 ^ 64 := by
    -- the next multiple of the alignment is still below `2 ^ 64`, itself one
    obtain ⟨q, hq⟩ := Nat.dvd_add hbase (dvd_roundUp off k)
    have hpow : 2 ^ 64 = 2 ^ k * 2 ^ (64 - k) := by
      rw [← pow_add, Nat.add_sub_cancel' hk]
    have hnext : base + roundUp off k + 2 ^ k ≤ 2 ^ 64 := by
      rw [hq, hpow] at hfits
      have hlt := Nat.lt_of_mul_lt_mul_left hfits
      rw [hq, hpow, ← Nat.mul_succ]
      exact Nat.mul_le_mul_left _ hlt
    have hoff := le_roundUp off k
    have hpos := Nat.two_pow_pos k
    omega
  unfold alignUpAddr checkedAddUintptr checkedAdd
  rw [if_neg (by omega)]
  exact congrArg Except.ok ((mask_roundUp hk hsum).trans (roundUp_base hbase off))

-- ============ the allocations

/-- What an allocation of either kind does to a builder. -/
structure Reserves (b b' : WorkspaceLayoutBuilder) (bytes k : Nat) :
    Prop where
  cursor : b'.cursor = roundUp b.cursor k + bytes
  peak : b'.peak = max b.peak b'.cursor
  word : b'.cursor < 2 ^ 64

theorem advance_peak (b : WorkspaceLayoutBuilder) (cursor : Nat) :
    (b.advance cursor).peak = max b.peak cursor := by
  change (if b.peak < cursor then cursor else b.peak) = max b.peak cursor
  split
  · next hlt => exact (Nat.max_eq_right (le_of_lt hlt)).symm
  · next hle => exact (Nat.max_eq_left (Nat.le_of_not_lt hle)).symm

variable {b : WorkspaceLayoutBuilder}

theorem advance_reserves {bytes k aligned cursor : Nat} {label label' : String}
    (hb : b.cursor < 2 ^ 64)
    (haligned : alignUp b.cursor (2 ^ k) label = .ok aligned)
    (hcursor : checkedAdd aligned bytes label' = .ok cursor) :
    Reserves b (b.advance cursor) bytes k := by
  obtain ⟨rfl, hword⟩ := alignUp_ok hb haligned
  unfold checkedAdd at hcursor
  rw [guard_ok] at hcursor
  obtain ⟨hfits, hcursor⟩ := hcursor
  cases hcursor
  refine ⟨rfl, advance_peak b _, ?_⟩
  change roundUp b.cursor k + bytes < 2 ^ 64
  omega

theorem builder_allocBytes {b b' : WorkspaceLayoutBuilder}
    {bytes k : Nat} (hb : b.cursor < 2 ^ 64)
    (hbytes : bytes ≠ 0) (h : b.allocBytes bytes (2 ^ k) = .ok b') :
    Reserves b b' bytes k := by
  unfold WorkspaceLayoutBuilder.allocBytes at h
  rw [if_neg hbytes] at h
  obtain ⟨aligned, haligned, h⟩ := bind_ok.mp h
  obtain ⟨cursor, hcursor, h⟩ := bind_ok.mp h
  cases h
  exact advance_reserves hb haligned hcursor

/-- A tensor that was made has bytes. -/
theorem bytes_ne_zero {dtype : DType} {shape : List Int} {tensor : Tensor}
    {bytes : Nat} (htensor : Tensor.make dtype shape = .ok tensor)
    (hbytes : tensor.bytes = .ok bytes) : bytes ≠ 0 := by
  obtain ⟨hne, hrank, hpos⟩ := make_ok htensor
  have hboth : (Tensor.make dtype shape >>= Tensor.bytes) = .ok bytes := by
    rw [htensor]
    exact hbytes
  rcases @tensor_bytes _ dtype hne hrank hpos with hok | ⟨e, he, -⟩
  · obtain rfl := Except.ok.inj (hok.symm.trans hboth)
    refine Nat.mul_ne_zero ?_ (by cases dtype <;> decide)
    unfold elements
    refine prod_ne_zero fun hzero => ?_
    obtain ⟨dim, hdim, hnat⟩ := mem_map.mp hzero
    have := hpos dim hdim
    omega
  · rw [he] at hboth
    cases hboth

theorem builder_alloc {b b' : WorkspaceLayoutBuilder} {dtype : DType}
    {shape : List Int} {tensor : Tensor} {k bytes : Nat}
    (hb : b.cursor < 2 ^ 64)
    (h : b.alloc dtype shape (2 ^ k) = .ok (tensor, b'))
    (hbytes : tensor.bytes = .ok bytes) :
    Tensor.make dtype shape = .ok tensor ∧ bytes ≠ 0
      ∧ Reserves b b' bytes k := by
  unfold WorkspaceLayoutBuilder.alloc at h
  obtain ⟨tensor', htensor, h⟩ := bind_ok.mp h
  obtain ⟨aligned, haligned, h⟩ := bind_ok.mp h
  obtain ⟨bytes', hbytes', h⟩ := bind_ok.mp h
  obtain ⟨cursor, hcursor, h⟩ := bind_ok.mp h
  cases h
  obtain rfl := Except.ok.inj (hbytes'.symm.trans hbytes)
  exact ⟨htensor, bytes_ne_zero htensor hbytes,
    advance_reserves hb haligned hcursor⟩

/-- Storage that is aligned to `baseAlignment` and ends within the address
space. -/
structure Backed (base capacity baseAlignment : Nat) : Prop where
  nonnull : base ≠ 0
  power : isPowerOfTwo baseAlignment = true
  aligned : baseAlignment ∣ base
  ends : base + capacity ≤ 2 ^ 64

/-- A power of two up to the alignment of the base. -/
theorem Backed.dvd {base capacity baseAlignment alignment : Nat}
    (h : Backed base capacity baseAlignment)
    (hpower : isPowerOfTwo alignment = true)
    (hle : alignment ≤ baseAlignment) :
    ∃ k, alignment = 2 ^ k ∧ k ≤ 64 ∧ 2 ^ k ∣ base := by
  obtain ⟨k, rfl⟩ := isPowerOfTwo_iff.mp hpower
  obtain ⟨m, rfl⟩ := isPowerOfTwo_iff.mp h.power
  have hkm : k ≤ m := (Nat.pow_le_pow_iff_right (by decide)).mp hle
  have hm : 2 ^ m ≤ base :=
    Nat.le_of_dvd (pos_of_ne_zero h.nonnull) h.aligned
  have hends := h.ends
  have hlt : 2 ^ m ≤ 2 ^ 64 := by omega
  have hle64 := (Nat.pow_le_pow_iff_right (by decide)).mp hlt
  exact ⟨k, rfl, by omega, Nat.dvd_trans (Nat.pow_dvd_pow 2 hkm) h.aligned⟩

/-- An allocation that ends within the capacity. -/
theorem arena_allocBytes {a : DeviceArena} {bytes k : Nat}
    (hbase : a.base ≠ 0) (haligned : 2 ^ k ∣ a.base) (hk : k ≤ 64)
    (hends : a.base + a.cap ≤ 2 ^ 64) (hbytes : bytes ≠ 0)
    (hroom : roundUp a.off k + bytes ≤ a.cap) :
    ∃ peak, a.allocBytes bytes (2 ^ k)
      = .ok (⟨a.base + roundUp a.off k, bytes⟩,
        { a with off := roundUp a.off k + bytes, peak := peak }) := by
  have hoff := le_roundUp a.off k
  have hcurrent : checkedAddUintptr a.base a.off = .ok (a.base + a.off) :=
    if_neg (by omega)
  unfold DeviceArena.allocBytes
  rw [if_neg hbase, isPowerOfTwo_iff.mpr ⟨k, rfl⟩, Bool.not_true,
    if_neg Bool.false_ne_true, if_neg hbytes, hcurrent, ok_bind,
    alignUpAddr_base haligned (by omega) hk, ok_bind]
  dsimp only
  rw [Nat.add_sub_cancel_left, if_neg (by omega), if_neg (by omega),
    if_neg (by omega)]
  exact ⟨_, rfl⟩

-- ============ the invariant

variable {base capacity baseAlignment : Nat}

/-- Regions on top of each other, below a cursor, and aligned as `base`
is. -/
def Stacked (base : Nat) : List LayoutRegion → Nat → Prop
  | [], _ => True
  | r :: rest, top =>
    r.offset + r.bytes ≤ top ∧ r.alignment ∣ base
      ∧ r.alignment ∣ r.offset ∧ Stacked base rest r.offset

/-- Scopes in each other: each has saved a cursor and what was live. -/
def Nested (base : Nat) : List (Nat × List LayoutRegion) → Nat → Prop
  | [], _ => True
  | (saved, live) :: rest, top =>
    saved ≤ top ∧ Stacked base live saved ∧ Nested base rest saved

/-- What holds at every point of a dry run. -/
structure Laid (base : Nat) (d : DryRun) : Prop where
  peak : d.builder.cursor ≤ d.builder.peak
  word : d.builder.peak < 2 ^ 64
  live : Stacked base d.live d.builder.cursor
  scopes : Nested base d.scopes d.builder.cursor

variable {live : List LayoutRegion}

theorem Stacked.mono {top top' : Nat}
    (h : Stacked base live top) (hle : top ≤ top') :
    Stacked base live top' := by
  cases live with
  | nil => trivial
  | cons r rest => exact ⟨le_trans h.1 hle, h.2⟩

theorem Nested.mono {scopes : List (Nat × List LayoutRegion)}
    {top top' : Nat} (h : Nested base scopes top) (hle : top ≤ top') :
    Nested base scopes top' := by
  cases scopes with
  | nil => trivial
  | cons s rest => exact ⟨le_trans h.1 hle, h.2⟩

/-- An allocation puts a region on top. -/
theorem took_laid {d : DryRun} {bytes k : Nat}
    (h : Laid base d) (hdvd : 2 ^ k ∣ base)
    (hreserves : Reserves d.builder b bytes k) :
    Laid base (d.took b bytes (2 ^ k))
      ∧ (d.took b bytes (2 ^ k)).live
        = ⟨roundUp d.builder.cursor k, bytes, 2 ^ k⟩ :: d.live
      ∧ d.builder.peak ≤ b.peak ∧ b.cursor ≤ b.peak := by
  obtain ⟨hcursor, hpeak, hword⟩ := hreserves
  have hle := le_roundUp d.builder.cursor k
  have hoffset : b.cursor - bytes = roundUp d.builder.cursor k := by omega
  have hregion : (d.took b bytes (2 ^ k)).live
      = ⟨roundUp d.builder.cursor k, bytes, 2 ^ k⟩ :: d.live := by
    unfold DryRun.took
    rw [hoffset]
  have hmax : b.cursor ≤ b.peak := hpeak ▸ le_max_right _ _
  have hgrows : d.builder.peak ≤ b.peak := hpeak ▸ le_max_left _ _
  have hup : d.builder.cursor ≤ b.cursor := by omega
  refine ⟨⟨hmax, ?_, ?_, h.scopes.mono hup⟩, hregion, hgrows, hmax⟩
  · change b.peak < 2 ^ 64
    rw [hpeak]
    exact Nat.max_lt.mpr ⟨h.word, hword⟩
  · rw [hregion]
    exact ⟨le_of_eq hcursor.symm, hdvd, dvd_roundUp _ k, h.live.mono hle⟩

-- ============ the refinement

/-- A call with a size, aligned to a power of two up to that of the
base. -/
def WorkspaceCall.Admitted (baseAlignment : Nat) : WorkspaceCall → Prop
  | .alloc _ _ alignment =>
    isPowerOfTwo alignment = true ∧ alignment ≤ baseAlignment
  | .allocBytes bytes alignment =>
    bytes ≠ 0 ∧ isPowerOfTwo alignment = true ∧ alignment ≤ baseAlignment
  | .enter => True
  | .leave => True

instance (baseAlignment : Nat) :
    DecidablePred (WorkspaceCall.Admitted baseAlignment)
  | .alloc _ _ _ => inferInstanceAs (Decidable (_ ∧ _))
  | .allocBytes _ _ => inferInstanceAs (Decidable (_ ∧ _ ∧ _))
  | .enter => inferInstanceAs (Decidable True)
  | .leave => inferInstanceAs (Decidable True)

/-- A region in an arena, with its alignment. -/
def place (base : Nat) (r : LayoutRegion) : DeviceSpan × Nat :=
  (⟨base + r.offset, r.bytes⟩, r.alignment)

/-- The run of an arena is where the dry run is: at the same offset, with
its regions moved to the base. -/
structure Refines (base capacity : Nat) (d : DryRun) (r : ArenaRun) :
    Prop where
  base_eq : r.arena.base = base
  cap_eq : r.arena.cap = capacity
  offset : r.arena.off = d.builder.cursor
  live : r.live = d.live.map (place base)
  scopes : r.scopes
    = d.scopes.map fun scope => (scope.1, scope.2.map (place base))

variable (hbacked : Backed base capacity baseAlignment)

include hbacked

/-- An allocation, in both. -/
theorem took_refines {bytes k : Nat} {d : DryRun} {r : ArenaRun} (hk : k ≤ 64)
    (hdvd : 2 ^ k ∣ base) (hbytes : bytes ≠ 0) (hlaid : Laid base d)
    (hreserves : Reserves d.builder b bytes k)
    (h : Refines base capacity d r) (hroom : b.peak ≤ capacity) :
    ∃ span arena, r.arena.allocBytes bytes (2 ^ k) = .ok (span, arena)
      ∧ Refines base capacity (d.took b bytes (2 ^ k))
        (r.took span arena (2 ^ k)) := by
  obtain ⟨-, hlive, -, hmax⟩ := took_laid hlaid hdvd hreserves
  have hcursor := hreserves.cursor
  obtain ⟨rfl, rfl, hoffset, hbefore, hscopes⟩ := h
  rw [← hoffset] at hcursor hlive
  obtain ⟨peak, halloc⟩ := arena_allocBytes hbacked.nonnull hdvd hk
    hbacked.ends hbytes (by omega)
  refine ⟨_, _, halloc, rfl, rfl, hcursor.symm, ?_, hscopes⟩
  rw [hlive, map_cons, ← hbefore]
  rfl

variable {call : WorkspaceCall}

/-- What a call does to a dry run, and the allocation an arena makes for
it. -/
theorem step_cases {d d' : DryRun}
    (hcall : call.Admitted baseAlignment) (hlaid : Laid base d)
    (hstep : d.step call = .ok d') :
    (∃ k bytes b, k ≤ 64 ∧ 2 ^ k ∣ base ∧ bytes ≠ 0
        ∧ Reserves d.builder b bytes k ∧ d' = d.took b bytes (2 ^ k)
        ∧ ∀ r : ArenaRun, r.step call
        = (r.arena.allocBytes bytes (2 ^ k)).map fun out =>
          r.took out.1 out.2 (2 ^ k))
      ∨ (call = .enter
        ∧ d' = { d with scopes := (d.builder.cursor, d.live) :: d.scopes })
      ∨ (call = .leave ∧ d.scopes = [] ∧ d' = d)
      ∨ ∃ saved live rest, call = .leave ∧ d.scopes = (saved, live) :: rest
        ∧ d' = ⟨d.builder.leave saved, rest, live⟩ := by
  have hcursor : d.builder.cursor < 2 ^ 64 :=
    lt_of_le_of_lt hlaid.peak hlaid.word
  cases call with
  | alloc dtype shape alignment =>
    obtain ⟨k, rfl, hk, hdvd⟩ := hbacked.dvd hcall.1 hcall.2
    obtain ⟨⟨tensor, b⟩, halloc, hstep⟩ := bind_ok.mp hstep
    obtain ⟨bytes, hbytes, hstep⟩ := bind_ok.mp hstep
    obtain ⟨htensor, hpositive, hreserves⟩ :=
      builder_alloc hcursor halloc hbytes
    refine .inl ⟨k, bytes, b, hk, hdvd, hpositive, hreserves,
      (Except.ok.inj hstep).symm, fun r => ?_⟩
    unfold ArenaRun.step DeviceArena.alloc
    dsimp only
    rw [htensor, ok_bind, hbytes, ok_bind]
    rfl
  | allocBytes bytes alignment =>
    obtain ⟨hpositive, hpower, hle⟩ := hcall
    obtain ⟨k, rfl, hk, hdvd⟩ := hbacked.dvd hpower hle
    obtain ⟨b, halloc, hstep⟩ := bind_ok.mp hstep
    exact .inl ⟨k, bytes, b, hk, hdvd, hpositive,
      builder_allocBytes hcursor hpositive halloc,
      (Except.ok.inj hstep).symm, fun r => rfl⟩
  | enter => exact .inr (.inl ⟨rfl, (Except.ok.inj hstep).symm⟩)
  | leave =>
    obtain ⟨builder, scopes, live⟩ := d
    cases scopes with
    | nil =>
      exact .inr (.inr (.inl ⟨rfl, rfl, (Except.ok.inj hstep).symm⟩))
    | cons scope rest =>
      exact .inr (.inr (.inr
        ⟨scope.1, scope.2, rest, rfl, rfl, (Except.ok.inj hstep).symm⟩))

/-- A call keeps the invariant, and never lowers the peak. -/
theorem step_laid {d d' : DryRun}
    (hcall : call.Admitted baseAlignment) (hlaid : Laid base d)
    (hstep : d.step call = .ok d') :
    Laid base d' ∧ d.builder.peak ≤ d'.builder.peak := by
  rcases step_cases hbacked hcall hlaid hstep with
    ⟨k, bytes, b, -, hdvd, -, hreserves, rfl, -⟩ | ⟨-, rfl⟩ | ⟨-, -, rfl⟩
      | ⟨saved, live, rest, -, hscopes, rfl⟩
  · obtain ⟨hlaid', -, hpeak, -⟩ := took_laid hlaid hdvd hreserves
    exact ⟨hlaid', hpeak⟩
  · exact ⟨⟨hlaid.peak, hlaid.word, hlaid.live, le_refl _, hlaid.live,
      hlaid.scopes⟩, le_refl _⟩
  · exact ⟨hlaid, le_refl _⟩
  · have hnested := hlaid.scopes
    rw [hscopes] at hnested
    obtain ⟨hsaved, hkept, hrest⟩ := hnested
    exact ⟨⟨le_trans hsaved hlaid.peak, hlaid.word, hkept, hrest⟩, le_refl _⟩

/-- One call: where the dry run goes on, and there is room for its peak,
the arena does the same. -/
theorem step_refines {d d' : DryRun} {r : ArenaRun}
    (hcall : call.Admitted baseAlignment) (hlaid : Laid base d)
    (hstep : d.step call = .ok d') (h : Refines base capacity d r)
    (hroom : d'.builder.peak ≤ capacity) :
    ∃ r', r.step call = .ok r' ∧ Refines base capacity d' r' := by
  rcases step_cases hbacked hcall hlaid hstep with
    ⟨k, bytes, b, hk, hdvd, hpositive, hreserves, rfl, harena⟩ | ⟨rfl, rfl⟩
      | ⟨rfl, hscopes, rfl⟩ | ⟨saved, live, rest, rfl, hscopes, rfl⟩
  · obtain ⟨span, arena, halloc, hrefines⟩ :=
      took_refines hbacked hk hdvd hpositive hlaid hreserves h hroom
    exact ⟨_, by rw [harena, halloc]; rfl, hrefines⟩
  · refine ⟨_, rfl, h.base_eq, h.cap_eq, h.offset, h.live, ?_⟩
    rw [map_cons, ← h.scopes, ← h.offset, ← h.live]
  · have hnone := h.scopes
    rw [hscopes] at hnone
    refine ⟨r, ?_, h⟩
    unfold ArenaRun.step
    rw [hnone]
    rfl
  · have hnested := hlaid.scopes
    have hopen := h.scopes
    rw [hscopes] at hnested hopen
    -- the scope has saved an offset the arena is not below
    have hleave : r.arena.leave saved = { r.arena with off := saved } :=
      if_pos (h.offset ▸ hnested.1)
    refine ⟨⟨r.arena.leave saved, rest.map fun scope =>
      (scope.1, scope.2.map (place base)), live.map (place base)⟩, ?_, ?_⟩
    · unfold ArenaRun.step
      rw [hopen]
      rfl
    · rw [hleave]
      exact ⟨h.base_eq, h.cap_eq, rfl, rfl, rfl⟩

theorem run_laid : ∀ (calls : List WorkspaceCall) (d d' : DryRun),
      (∀ call ∈ calls, call.Admitted baseAlignment) → Laid base d →
        d.run calls = .ok d' →
        Laid base d' ∧ d.builder.peak ≤ d'.builder.peak := by
  intro calls
  induction calls with
  | nil =>
    intro d d' _ hlaid hrun
    cases hrun
    exact ⟨hlaid, le_refl _⟩
  | cons call rest ih =>
    intro d d' hcalls hlaid hrun
    unfold DryRun.run at hrun
    rw [foldlM_cons] at hrun
    obtain ⟨middle, hstep, hrun⟩ := bind_ok.mp hrun
    obtain ⟨hmiddle, hpeak⟩ :=
      step_laid hbacked (hcalls call (.head _)) hlaid hstep
    obtain ⟨hlaid', hpeak'⟩ := ih middle d'
      (fun c hc => hcalls c (.tail _ hc)) hmiddle hrun
    exact ⟨hlaid', le_trans hpeak hpeak'⟩

/-- A whole run. -/
theorem run_refines :
    ∀ (calls : List WorkspaceCall) (d d' : DryRun) (r : ArenaRun),
      (∀ call ∈ calls, call.Admitted baseAlignment) → Laid base d →
        d.run calls = .ok d' → Refines base capacity d r →
        d'.builder.peak ≤ capacity →
          ∃ r', r.run calls = .ok r' ∧ Refines base capacity d' r' := by
  intro calls
  induction calls with
  | nil =>
    intro d d' r _ _ hrun h _
    cases hrun
    exact ⟨r, rfl, h⟩
  | cons call rest ih =>
    intro d d' r hcalls hlaid hrun h hroom
    unfold DryRun.run at hrun
    rw [foldlM_cons] at hrun
    obtain ⟨middle, hstep, hrun⟩ := bind_ok.mp hrun
    have hcall := hcalls call (.head _)
    have hrest : ∀ call ∈ rest, call.Admitted baseAlignment :=
      fun c hc => hcalls c (.tail _ hc)
    obtain ⟨hmiddle, -⟩ := step_laid hbacked hcall hlaid hstep
    -- the peak of the rest is at least the one after this call
    obtain ⟨-, hpeak⟩ := run_laid hbacked rest middle d' hrest hmiddle hrun
    obtain ⟨r', hr', h'⟩ := step_refines hbacked hcall hlaid hstep h
      (le_trans hpeak hroom)
    obtain ⟨r'', hr'', h''⟩ := ih middle d' r' hrest hmiddle hrun h' hroom
    refine ⟨r'', ?_, h''⟩
    unfold ArenaRun.run
    rw [foldlM_cons, hr']
    exact hr''

omit hbacked

-- ============ the regions

/-- The live spans of an arena do not share a byte, are aligned as they
were asked for, and lie in its storage. -/
structure ArenaRun.Sound (r : ArenaRun) : Prop where
  disjoint : r.live.Pairwise fun a b =>
    b.1.data + b.1.bytes ≤ a.1.data ∨ a.1.data + a.1.bytes ≤ b.1.data
  aligned : ∀ span ∈ r.live, span.2 ∣ span.1.data
  inside : ∀ span ∈ r.live, r.arena.base ≤ span.1.data
    ∧ span.1.data + span.1.bytes ≤ r.arena.base + r.arena.cap

theorem Stacked.mem :
    ∀ {top : Nat}, Stacked base live top → ∀ r ∈ live,
      r.offset + r.bytes ≤ top ∧ r.alignment ∣ base + r.offset := by
  induction live with
  | nil => exact fun _ r hr => nomatch hr
  | cons first rest ih =>
    intro top h r hr
    rcases mem_cons.mp hr with rfl | hr
    · exact ⟨h.1, Nat.dvd_add h.2.1 h.2.2.1⟩
    · obtain ⟨hend, hdvd⟩ := ih h.2.2.2 r hr
      have := h.1
      exact ⟨by omega, hdvd⟩

theorem Stacked.disjoint :
    ∀ {top : Nat}, Stacked base live top →
      live.Pairwise fun a b => b.offset + b.bytes ≤ a.offset := by
  induction live with
  | nil => exact fun _ => Pairwise.nil
  | cons first rest ih =>
    intro top h
    exact Pairwise.cons (fun r hr => (h.2.2.2.mem r hr).1) (ih h.2.2.2)

theorem Refines.sound {d : DryRun} {r : ArenaRun} (hlaid : Laid base d)
    (h : Refines base capacity d r) (hroom : d.builder.peak ≤ capacity) :
    r.Sound := by
  have hmem : ∀ span ∈ r.live, span.2 ∣ span.1.data ∧ base ≤ span.1.data
      ∧ span.1.data + span.1.bytes ≤ base + d.builder.cursor := by
    intro span hspan
    rw [h.live] at hspan
    obtain ⟨region, hregion, rfl⟩ := mem_map.mp hspan
    obtain ⟨hend, hdvd⟩ := hlaid.live.mem region hregion
    refine ⟨hdvd, Nat.le_add_right _ _, ?_⟩
    change base + region.offset + region.bytes ≤ _
    omega
  have hpeak := hlaid.peak
  refine ⟨?_, fun span hspan => (hmem span hspan).1, fun span hspan => ?_⟩
  · rw [h.live, pairwise_map]
    refine hlaid.live.disjoint.imp fun {a b} hab => .inl ?_
    change base + b.offset + b.bytes ≤ base + a.offset
    omega
  · obtain ⟨-, hlow, hhigh⟩ := hmem span hspan
    rw [h.base_eq, h.cap_eq]
    exact ⟨hlow, by omega⟩

/-- The dry run is refined by an arena of the size it reports: at every
point of the calls the arena has come as far, it has handed out the same
offsets, and its live spans are sound. -/
theorem dry_run_refined (base capacity baseAlignment alignment : Nat)
    (calls : List WorkspaceCall) (arena : DeviceArena) (final : DryRun)
    (reported : Nat) (hcalls : ∀ call ∈ calls, call.Admitted baseAlignment)
    (hdry : DryRun.run {} calls = .ok final)
    (hreported : final.builder.peakBytes alignment = .ok reported)
    (hcapacity : reported ≤ capacity)
    (hbacked : Backed base capacity baseAlignment)
    (harena : DeviceArena.borrow ⟨base, capacity⟩ = .ok arena)
    (before after : List WorkspaceCall) (hpoint : calls = before ++ after) :
    ∃ dry run, DryRun.run {} before = .ok dry
      ∧ ArenaRun.run ⟨arena, [], []⟩ before = .ok run
      ∧ run.arena.off = dry.builder.cursor
      ∧ run.live = dry.live.map (place base)
      ∧ run.Sound := by
  subst hpoint
  have hstart : Laid base {} :=
    ⟨Nat.le_refl _, Nat.two_pow_pos 64, trivial, trivial⟩
  have hbefore : ∀ call ∈ before, call.Admitted baseAlignment :=
    fun c hc => hcalls c (List.mem_append_left _ hc)
  have hafter : ∀ call ∈ after, call.Admitted baseAlignment :=
    fun c hc => hcalls c (List.mem_append_right _ hc)
  unfold DryRun.run at hdry
  rw [List.foldlM_append] at hdry
  obtain ⟨dry, hdry, hrest⟩ := bind_ok.mp hdry
  obtain ⟨hlaid, -⟩ := run_laid hbacked before {} dry hbefore hstart hdry
  obtain ⟨hfinal, hpeak⟩ := run_laid hbacked after dry final hafter hlaid hrest
  have hle : final.builder.peak ≤ reported := by
    unfold WorkspaceLayoutBuilder.peakBytes at hreported
    have hpower : isPowerOfTwo alignment = true := by
      unfold alignUp at hreported
      rw [guard_ok, Bool.not_eq_true, Bool.not_eq_false'] at hreported
      exact hreported.1
    obtain ⟨k, rfl⟩ := isPowerOfTwo_iff.mp hpower
    rw [(alignUp_ok hfinal.word hreported).1]
    exact le_roundUp _ k
  have hroom : dry.builder.peak ≤ capacity := by omega
  unfold DeviceArena.borrow at harena
  rw [guard_ok] at harena
  obtain rfl := Except.ok.inj harena.2
  obtain ⟨run, hrun, hrefines⟩ := run_refines hbacked before {} dry
    ⟨⟨base, capacity, 0, 0⟩, [], []⟩ hbefore hstart hdry
    ⟨rfl, rfl, rfl, rfl, rfl⟩ hroom
  exact ⟨dry, run, hdry, hrun, hrefines.offset, hrefines.live,
    hrefines.sound hlaid hroom⟩

/-- A tensor, and bytes in a scope that is left again. -/
def scopedCalls : List WorkspaceCall :=
  [.alloc .bf16 [3, 5] 256, .enter, .allocBytes 100 64, .allocBytes 7 1,
    .leave, .allocBytes 24 128]

/-- At their third call, in an arena of exactly the reported 256 bytes. -/
theorem dry_run_refined_scopedCalls :
    ∃ dry run, DryRun.run {} (scopedCalls.take 3) = .ok dry
      ∧ ArenaRun.run ⟨⟨4096, 256, 0, 0⟩, [], []⟩ (scopedCalls.take 3) = .ok run
      ∧ run.arena.off = dry.builder.cursor
      ∧ run.live = dry.live.map (place 4096)
      ∧ run.Sound :=
  dry_run_refined 4096 256 256 256 scopedCalls ⟨4096, 256, 0, 0⟩
    ⟨⟨152, 171⟩, [], [⟨128, 24, 128⟩, ⟨0, 30, 256⟩]⟩ 256
    (by decide) (by decide) rfl (by decide) ⟨by decide, by decide, by decide, by decide⟩ rfl
    (scopedCalls.take 3) (scopedCalls.drop 3) rfl

end Ginfer.Layout
