/-
The recurrent body and where its warps read and write.

`recurrentBody_eq` unrolls the loop: the state after `n` columns is a fold
of the transitions over the columns (`tileAfter`), whatever the access
policy stores on the way.

An element of a state pool has one layer, slot, head, row and column
(`state_inj`), and a row of a head one warp. From there on no two warps of
a launch write the same element, and the launches can be read warp by
warp (`Launch.Apart`).
-/
import Ginfer.Lib.Strides
import Ginfer.Ops.GdnReplay

namespace Ginfer.Ops.GdnReplay

open Ginfer.Lib List
open Ginfer.Lib.Launch

-- ============ the loop

section

variable {F B : Type} (recurrence : Recurrence F B) (access : Access F B)

/-- The state after `n` columns. -/
def tileAfter : Nat → Tile F
  | 0 => access.initial
  | n + 1 => recurrence.transition (access.key n) (access.value n)
    (access.gate n) (tileAfter n)

/-- What a column stores, with the key of the next. -/
def columnStores (valid token : Nat) : Stores F B :=
  access.storeValue token (access.value token)
    ++ access.storeGate token (access.gate token)
    ++ (if token + 1 < valid then
        access.storeKey (token + 1) (access.key (token + 1)) else [])
    ++ access.publish token (tileAfter recurrence access (token + 1))

/-- The loop after `n` columns. -/
theorem body_loop {valid n : Nat} (hn : n ≤ valid) :
    ∃ key, (n < valid → key = access.key n) ∧
      (range n).foldl (bodyStep recurrence access valid)
        { state := access.initial
          key := access.key 0
          stores := access.storeKey 0 (access.key 0) }
      = { state := tileAfter recurrence access n
          key := key
          stores := access.storeKey 0 (access.key 0) ++
            (range n).flatMap
              (columnStores recurrence access valid) } := by
  induction n with
  | zero => exact ⟨access.key 0, fun _ => rfl, by simp [tileAfter]⟩
  | succ n ih =>
    obtain ⟨key, hkey, hloop⟩ := ih (by omega)
    rw [hkey (by omega)] at hloop
    rw [range_succ, foldl_append, hloop, foldl_cons,
      foldl_nil, flatMap_append, flatMap_cons,
      flatMap_nil, bodyStep]
    by_cases hnext : n + 1 < valid
    · refine ⟨access.key (n + 1), fun _ => rfl, ?_⟩
      simp [columnStores, hnext, tileAfter]
    · refine ⟨access.key n, fun h => absurd h hnext, ?_⟩
      simp [columnStores, hnext, tileAfter]

theorem recurrentBody_eq (valid : Nat) :
    recurrentBody recurrence access valid
      = access.storeKey 0 (access.key 0)
        ++ (range valid).flatMap (columnStores recurrence access valid)
        ++ access.finish (tileAfter recurrence access valid) := by
  obtain ⟨key, -, hloop⟩ := body_loop recurrence access (Nat.le_refl valid)
  rw [recurrentBody, hloop]

/-- The stores of the body, one kind after the other. -/
theorem mem_recurrentBody {valid : Nat} (hvalid : 0 < valid)
    {write : (cell : Cell) × Content F B cell} :
    write ∈ recurrentBody recurrence access valid ↔
      (∃ t < valid, write ∈ access.storeKey t (access.key t)) ∨
      (∃ t < valid, write ∈ access.storeValue t (access.value t)) ∨
      (∃ t < valid, write ∈ access.storeGate t (access.gate t)) ∨
      (∃ t < valid,
        write ∈ access.publish t (tileAfter recurrence access (t + 1))) ∨
      write ∈ access.finish (tileAfter recurrence access valid) := by
  rw [recurrentBody_eq]
  simp only [mem_append, mem_flatMap, mem_range, columnStores]
  constructor
  · rintro ((hkey | ⟨t, ht, ((hvalue | hgate) | hkey) | hpublish⟩) | hfinish)
    · exact .inl ⟨0, hvalid, hkey⟩
    · exact .inr (.inl ⟨t, ht, hvalue⟩)
    · exact .inr (.inr (.inl ⟨t, ht, hgate⟩))
    · by_cases hnext : t + 1 < valid
      · rw [if_pos hnext] at hkey
        exact .inl ⟨t + 1, hnext, hkey⟩
      · rw [if_neg hnext] at hkey
        cases hkey
    · exact .inr (.inr (.inr (.inl ⟨t, ht, hpublish⟩)))
    · exact .inr (.inr (.inr (.inr hfinish)))
  · rintro (⟨t, ht, hkey⟩ | ⟨t, ht, hvalue⟩ | ⟨t, ht, hgate⟩
      | ⟨t, ht, hpublish⟩ | hfinish)
    · cases t with
      | zero => exact .inl (.inl hkey)
      | succ t =>
        refine .inl (.inr ⟨t, by omega, .inl (.inr ?_)⟩)
        rwa [if_pos ht]
    · exact .inl (.inr ⟨t, ht, .inl (.inl (.inl hvalue))⟩)
    · exact .inl (.inr ⟨t, ht, .inl (.inl (.inr hgate))⟩)
    · exact .inl (.inr ⟨t, ht, .inr hpublish⟩)
    · exact .inr hfinish

end

-- ============ the addresses

/-- An element of a state pool has one place. -/
theorem state_inj {stride heads slots : Nat}
    (hfits : slots * (heads * 128 * 128) ≤ stride)
    {layer layer' slot slot' head head' i i' d d' : Nat}
    (hslot : slot < slots) (hslot' : slot' < slots)
    (hhead : head < heads) (hhead' : head' < heads)
    (hi : i < 128) (hi' : i' < 128) (hd : d < 128) (hd' : d' < 128)
    (h : stateBase stride heads layer slot head + i * 128 + d
      = stateBase stride heads layer' slot' head' + i' * 128 + d') :
    layer = layer' ∧ slot = slot' ∧ head = head' ∧ i = i' ∧ d = d' := by
  -- The digits from the last to the first.
  have hrow := digits_lt hi hd
  have hrow' := digits_lt hi' hd'
  have hheads := digits_lt hhead hrow
  have hheads' := digits_lt hhead' hrow'
  rw [Nat.mul_assoc heads] at hfits
  have hslots := Nat.lt_of_lt_of_le (digits_lt hslot hheads) hfits
  have hslots' := Nat.lt_of_lt_of_le (digits_lt hslot' hheads') hfits
  have hflat : ∀ layer slot head i d,
      stateBase stride heads layer slot head + i * 128 + d
        = layer * stride + (slot * (heads * (128 * 128))
          + (head * (128 * 128) + (i * 128 + d))) := by
    intro layer slot head i d
    rw [stateBase, Nat.mul_assoc heads, Nat.mul_assoc head]
    omega
  rw [hflat, hflat] at h
  obtain ⟨hlayer, h⟩ := digits_inj hslots hslots' h
  obtain ⟨hslot, h⟩ := digits_inj hheads hheads' h
  obtain ⟨hhead, h⟩ := digits_inj hrow hrow' h
  obtain ⟨hi, hd⟩ := digits_inj hd hd' h
  exact ⟨hlayer, hslot, hhead, hi, hd⟩

/-- An element of a tensor of columns and heads has one place. -/
theorem head_inj {width heads : Nat} {b b' t t' head head' : Nat}
    (ht : t < width) (ht' : t' < width) (hhead : head < heads)
    (hhead' : head' < heads)
    (h : (b * width + t) * heads + head = (b' * width + t') * heads + head') :
    b = b' ∧ t = t' ∧ head = head' := by
  obtain ⟨hcolumn, hhead⟩ := digits_inj hhead hhead' h
  obtain ⟨hb, ht⟩ := digits_inj ht ht' hcolumn
  exact ⟨hb, ht, hhead⟩

-- ============ the warps

/-- The warps of a grid. -/
def InGrid (x y z : Nat) (warp : Warp) : Prop :=
  warp.x < x ∧ warp.y < y ∧ warp.z < z ∧ warp.warp < 4

theorem mem_grid {x y z : Nat} {warp : Warp} :
    warp ∈ grid x y z ↔ InGrid x y z warp := by
  rw [grid, mem_map]
  simp only [Prod.exists, mem_product, mem_range]
  constructor
  · rintro ⟨a, b, c, d, h, rfl⟩
    exact h
  · intro h
    exact ⟨warp.x, warp.y, warp.z, warp.warp, h, rfl⟩

theorem grid_nodup (x y z : Nat) : (grid x y z).Nodup := by
  refine Nodup.map ?_ (nodup_range.product
    (nodup_range.product (nodup_range.product nodup_range)))
  rintro ⟨a, b, c, d⟩ ⟨a', b', c', d'⟩ h
  cases h
  rfl

/-- The row of a head's state that a warp holds in register row `r`. -/
theorem tileRow_lt {z warp : Nat} (hz : z < 8) (hwarp : warp < 4)
    (r : Fin 4) : z * 16 + warp * 4 + r < 128 := by
  have := r.isLt
  omega

theorem tileRow_inj {z z' warp warp' : Nat} (hwarp : warp < 4)
    (hwarp' : warp' < 4) {r r' : Fin 4}
    (h : z * 16 + warp * 4 + (r : Nat) = z' * 16 + warp' * 4 + r') :
    z = z' ∧ warp = warp' ∧ r = r' := by
  have := r.isLt
  have := r'.isLt
  refine ⟨by omega, by omega, Fin.ext (by omega)⟩

theorem mem_storeTile {F B : Type} {base dvBase : Nat} {tile : Tile F}
    {write : (cell : Cell) × Content F B cell} :
    write ∈ (storeTile base dvBase tile : Stores F B) ↔
      ∃ (r : Fin 4) (d : Fin 128), write
        = ⟨.recurrent (base + (dvBase + r) * 128 + d), tile r d⟩ := by
  rw [storeTile, mem_map]
  simp only [Prod.exists, mem_product, mem_finRange, true_and, and_self]
  constructor
  · rintro ⟨r, d, rfl⟩
    exact ⟨r, d, rfl⟩
  · rintro ⟨r, d, rfl⟩
    exact ⟨r, d, rfl⟩

end Ginfer.Ops.GdnReplay
