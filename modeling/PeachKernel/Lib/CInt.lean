/-
  File:      PeachKernel/Lib/CInt.lean
  Subject:   The fixed-width integers of a 32-bit C target.

  Values are `Nat` (unsigned types, pointers) and `Int` (signed types); a conversion to a C type is
  an explicit function here, so a wrap-around stands in the model exactly where the source has one:

  * `u8`, `u32` -- conversion to an unsigned type (reduction modulo the type's size);
  * `i32` -- conversion to `int` (two's complement);
  * `ceilDiv` -- the number of pieces that hold a length, without a width.
-/
import Mathlib.Data.Int.Basic
import Mathlib.Tactic.Ring

namespace CInt

/-! ## 1. Conversions -/

/-- Conversion to `uint8_t`. -/
def u8 (z : Int) : Nat := (z % 256).toNat

/-- Conversion to `uint32_t`, `size_t` or a pointer. -/
def u32 (z : Int) : Nat := (z % 4294967296).toNat

/-- Conversion to `int`. -/
def i32 (z : Int) : Int :=
  if z % 4294967296 < 2147483648 then z % 4294967296 else z % 4294967296 - 4294967296

theorem u32_lt (z : Int) : u32 z < 4294967296 := by
  unfold u32
  omega

theorem u32_of_range {z : Int} (h0 : 0 ≤ z) (h1 : z < 4294967296) : u32 z = z.toNat := by
  unfold u32
  omega

@[simp] theorem u32_natCast_of_lt {n : Nat} (h : n < 4294967296) : u32 (n : Int) = n := by
  unfold u32
  omega

theorem u32_add_of_lt {a b : Nat} (h : a + b < 4294967296) : u32 ((a : Int) + b) = a + b := by
  unfold u32
  omega

theorem u32_sub_of_le {a b : Nat} (h : b ≤ a) (ha : a < 4294967296) :
    u32 ((a : Int) - b) = a - b := by
  unfold u32
  omega

theorem i32_of_range {z : Int} (h0 : -2147483648 ≤ z) (h1 : z < 2147483648) : i32 z = z := by
  unfold i32
  split <;> omega

@[simp] theorem i32_natCast_of_lt {n : Nat} (h : n < 2147483648) : i32 (n : Int) = n :=
  i32_of_range (by omega) (by omega)

theorem i32_add_of_lt {a b : Nat} (h : a + b < 2147483648) :
    i32 ((a : Int) + b) = ((a + b : Nat) : Int) :=
  i32_of_range (by omega) (by omega)

/-- Converting on the way changes nothing. -/
theorem i32_i32_add (a b : Int) : i32 (i32 a + b) = i32 (a + b) := by
  unfold i32
  omega

/-! ## 2. Pieces of one size -/

/-- The number of `k`-byte pieces that hold `n` bytes. -/
def ceilDiv (n k : Nat) : Nat := (n + (k - 1)) / k

end CInt
