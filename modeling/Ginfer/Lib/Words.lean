/-
Unsigned machine counters over `Nat`.

The modelled counters are `std::uint32_t` and `std::size_t`: addition and
subtraction wrap modulo a power of two. The model keeps them as `Nat` and
applies the wrap explicitly, so a subtraction that would underflow gives
the huge value the machine gives and an invariant has to RULE IT OUT
rather than have `Nat` truncation hide it. The lemmas say when the wrap
is the identity.
-/
import Mathlib.Data.UInt

namespace Ginfer.Lib

/-- Wrapping addition on `bits` bits. -/
def wrapAdd (bits a b : Nat) : Nat := (a + b) % 2 ^ bits

/-- Wrapping subtraction on `bits` bits. -/
def wrapSub (bits a b : Nat) : Nat :=
  (a + (2 ^ bits - b % 2 ^ bits)) % 2 ^ bits

/-- `std::uint32_t` addition. -/
def u32Add (a b : Nat) : Nat := wrapAdd 32 a b

/-- `std::uint32_t` subtraction. -/
def u32Sub (a b : Nat) : Nat := wrapSub 32 a b

/-- `std::size_t` addition. -/
def sizeAdd (a b : Nat) : Nat := wrapAdd 64 a b

/-- `std::size_t` subtraction. -/
def sizeSub (a b : Nat) : Nat := wrapSub 64 a b

/-- Addition does not wrap while the sum fits. -/
theorem wrapAdd_eq {bits a b : Nat} (h : a + b < 2 ^ bits) :
    wrapAdd bits a b = a + b :=
  Nat.mod_eq_of_lt h

/-- Subtraction does not wrap while it does not underflow. -/
theorem wrapSub_eq {bits a b : Nat} (hb : b ≤ a) (ha : a < 2 ^ bits) :
    wrapSub bits a b = a - b := by
  have hlt : b < 2 ^ bits := Nat.lt_of_le_of_lt hb ha
  unfold wrapSub
  rw [Nat.mod_eq_of_lt hlt]
  have heq : a + (2 ^ bits - b) = (a - b) + 2 ^ bits := by omega
  rw [heq, Nat.add_mod_right]
  exact Nat.mod_eq_of_lt (by omega)

theorem u32Add_eq {a b : Nat} (h : a + b < 2 ^ 32) : u32Add a b = a + b :=
  wrapAdd_eq h

theorem u32Sub_eq {a b : Nat} (hb : b ≤ a) (ha : a < 2 ^ 32) :
    u32Sub a b = a - b :=
  wrapSub_eq hb ha

theorem sizeAdd_eq {a b : Nat} (h : a + b < 2 ^ 64) : sizeAdd a b = a + b :=
  wrapAdd_eq h

theorem sizeSub_eq {a b : Nat} (hb : b ≤ a) (ha : a < 2 ^ 64) :
    sizeSub a b = a - b :=
  wrapSub_eq hb ha

end Ginfer.Lib
