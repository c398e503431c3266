/-
  File:      PeachKernel/Lib/ByteMem.lean
  Subject:   A byte-addressed memory with little-endian 32-bit words.

  * `load32`, `store32` -- a word at an address, and what a word store changes and leaves alone;
  * `fill`, `copyIn` -- a range of a 32-bit address space set to one byte, or to given bytes (the
    range may wrap around);
  * `ofWords` -- a memory given by the words at its 4-aligned addresses;
  * `and_pageMask`, `or_flags` -- splitting a word into a page address and the 12 bits below it.
-/
import PeachKernel.Lib.CInt
import Mathlib.Data.Nat.Bitwise

open CInt

/-- Memory: a byte at each address. -/
abbrev Mem := Nat → UInt8

namespace Mem

/-! ## 1. Words -/

/-- The word at `a`. -/
def load32 (m : Mem) (a : Nat) : Nat :=
  (m a).toNat + 256 * (m (a + 1)).toNat + 65536 * (m (a + 2)).toNat +
    16777216 * (m (a + 3)).toNat

/-- The half word at `a`. -/
def load16 (m : Mem) (a : Nat) : Nat := (m a).toNat + 256 * (m (a + 1)).toNat

/-- Byte `k` of a word. -/
def wordByte (v k : Nat) : UInt8 := UInt8.ofNat (v / 256 ^ k)

/-- The memory with the word `v` at `a`. -/
def store32 (m : Mem) (a v : Nat) : Mem := fun b =>
  if a ≤ b ∧ b < a + 4 then wordByte v (b - a) else m b

theorem load32_lt (m : Mem) (a : Nat) : load32 m a < 4294967296 := by
  have h0 := (m a).toNat_lt
  have h1 := (m (a + 1)).toNat_lt
  have h2 := (m (a + 2)).toNat_lt
  have h3 := (m (a + 3)).toNat_lt
  unfold load32
  omega

theorem store32_other {m : Mem} {a v b : Nat} (h : b < a ∨ a + 4 ≤ b) : store32 m a v b = m b :=
  if_neg (by omega)

theorem load16_lt (m : Mem) (a : Nat) : load16 m a < 65536 := by
  have h0 := (m a).toNat_lt
  have h1 := (m (a + 1)).toNat_lt
  unfold load16
  omega

theorem load16_congr {m m' : Mem} {a : Nat} (h : ∀ b, a ≤ b → b < a + 2 → m' b = m b) :
    load16 m' a = load16 m a := by
  unfold load16
  rw [h a (by omega) (by omega), h (a + 1) (by omega) (by omega)]

theorem load32_congr {m m' : Mem} {a : Nat} (h : ∀ b, a ≤ b → b < a + 4 → m' b = m b) :
    load32 m' a = load32 m a := by
  unfold load32
  rw [h a (by omega) (by omega), h (a + 1) (by omega) (by omega), h (a + 2) (by omega) (by omega),
    h (a + 3) (by omega) (by omega)]

theorem load32_zero {m : Mem} {a : Nat} (h : ∀ b, a ≤ b → b < a + 4 → m b = 0) :
    load32 m a = 0 := by
  unfold load32
  rw [h a (by omega) (by omega), h (a + 1) (by omega) (by omega), h (a + 2) (by omega) (by omega),
    h (a + 3) (by omega) (by omega)]
  rfl

/-- A word store leaves every other word alone. -/
theorem load32_store32_other {m : Mem} {a v b : Nat} (h : b + 4 ≤ a ∨ a + 4 ≤ b) :
    load32 (store32 m a v) b = load32 m b :=
  load32_congr fun _ h1 h2 => store32_other (by omega)

/-- The four bytes of a word give back the word. -/
theorem word_of_bytes {f : Nat → UInt8} {a v : Nat} (hv : v < 4294967296)
    (h : ∀ k, k < 4 → f (a + k) = wordByte v k) : load32 f a = v := by
  have e : ∀ k, (wordByte v k).toNat = v / 256 ^ k % 256 := fun k => UInt8.toNat_ofNat' ..
  have h0 := congrArg UInt8.toNat (h 0 (by omega))
  have h1 := congrArg UInt8.toNat (h 1 (by omega))
  have h2 := congrArg UInt8.toNat (h 2 (by omega))
  have h3 := congrArg UInt8.toNat (h 3 (by omega))
  rw [e] at h0 h1 h2 h3
  rw [Nat.add_zero] at h0
  unfold load32
  rw [h0, h1, h2, h3]
  omega

theorem load32_store32_same {m : Mem} {a v : Nat} (hv : v < 4294967296) :
    load32 (store32 m a v) a = v :=
  word_of_bytes hv fun k hk => by
    unfold store32
    rw [if_pos (by omega), Nat.add_sub_cancel_left]

/-- The bytes of a word that was read. -/
theorem wordByte_load32 (m : Mem) (a : Nat) {k : Nat} (hk : k < 4) :
    wordByte (load32 m a) k = m (a + k) := by
  have h0 := (m a).toNat_lt
  have h1 := (m (a + 1)).toNat_lt
  have h2 := (m (a + 2)).toNat_lt
  have h3 := (m (a + 3)).toNat_lt
  refine UInt8.toNat_inj.mp ?_
  simp only [wordByte, load32, UInt8.toNat_ofNat']
  obtain rfl | rfl | rfl | rfl : k = 0 ∨ k = 1 ∨ k = 2 ∨ k = 3 := by omega
  all_goals simp only [Nat.reducePow, Nat.add_zero]; omega

/-! ## 2. Filling a range -/

/-- The bytes `bs` from `a` on; the addresses are those of a 32-bit space. -/
def copyIn (m : Mem) (a : Nat) (bs : List UInt8) : Mem := fun b =>
  bs.getD (u32 ((b : Int) - a)) (m b)

/-- `size` bytes from `a` set to `c`; the addresses are those of a 32-bit space. -/
def fill (m : Mem) (a : Nat) (c : UInt8) (size : Nat) : Mem := fun b =>
  if u32 ((b : Int) - a) < size then c else m b

theorem fill_other {m : Mem} {a : Nat} {c : UInt8} {size b : Nat} (hb : b < 4294967296)
    (hs : a + size ≤ 4294967296) (h : b < a ∨ a + size ≤ b) : fill m a c size b = m b := by
  unfold fill u32
  rw [if_neg (by omega)]

theorem fill_inside {m : Mem} {a : Nat} {c : UInt8} {size b : Nat} (hs : a + size ≤ 4294967296)
    (h1 : a ≤ b) (h2 : b < a + size) : fill m a c size b = c := by
  unfold fill u32
  rw [if_pos (by omega)]

theorem copyIn_other {m : Mem} {a b : Nat} {bs : List UInt8} (hb : b < 4294967296)
    (ha : a + bs.length ≤ 4294967296) (h : b < a ∨ a + bs.length ≤ b) : copyIn m a bs b = m b := by
  unfold copyIn u32
  exact List.getD_eq_default _ _ (by omega)

theorem copyIn_inside {m : Mem} {a i : Nat} {bs : List UInt8} (hi : i < bs.length)
    (ha : a + bs.length ≤ 4294967296) : copyIn m a bs (a + i) = bs.getD i 0 := by
  unfold copyIn
  have e : u32 (((a + i : Nat) : Int) - a) = i := by
    unfold u32
    omega
  rw [e, List.getD_eq_getElem _ _ hi, List.getD_eq_getElem _ _ hi]

/-! ## 3. A memory given by its words -/

/-- The memory whose word at every 4-aligned address `a` is `w a`. -/
def ofWords (w : Nat → Nat) : Mem := fun b => wordByte (w (b - b % 4)) (b % 4)

theorem load32_ofWords {w : Nat → Nat} {a : Nat} (ha : a % 4 = 0) (hw : w a < 4294967296) :
    load32 (ofWords w) a = w a :=
  word_of_bytes hw fun k hk => by
    have e1 : (a + k) % 4 = k := by omega
    have e2 : a + k - k = a := by omega
    unfold ofWords
    rw [e1, e2]

/-! ## 4. A page address and the bits below it -/

/-- Clearing the low 12 bits of a word is rounding down to a page. -/
theorem and_pageMask {n : Nat} (h : n < 4294967296) : n &&& 0xFFFFF000 = n - n % 4096 := by
  have e : n - n % 4096 = 2 ^ 12 * (n / 2 ^ 12) := by omega
  rw [e]
  refine Nat.eq_of_testBit_eq fun i => ?_
  have hm : (0xFFFFF000 : Nat) = 2 ^ 12 * (2 ^ 20 - 1) := by decide
  rw [Nat.testBit_and, hm, Nat.testBit_two_pow_mul, Nat.testBit_two_pow_mul,
    Nat.testBit_two_pow_sub_one, Nat.testBit_div_two_pow]
  by_cases h1 : 12 ≤ i
  · have e2 : i - 12 + 12 = i := by omega
    by_cases h2 : i - 12 < 20
    · simp [h1, h2, e2]
    · -- above bit 31 the word has no bits
      have hi : n.testBit i = false := by
        refine Nat.testBit_lt_two_pow (lt_of_lt_of_le h ?_)
        exact Nat.pow_le_pow_right (n := 2) (by decide) (show 32 ≤ i by omega)
      simp [hi, e2]
  · simp [h1]

/-- Adding flags to a page address. -/
theorem or_flags {p f : Nat} (hp : p % 4096 = 0) (hf : f < 4096) : p ||| f = p + f := by
  have e : p = 2 ^ 12 * (p / 2 ^ 12) := by omega
  rw [e, ← Nat.two_pow_add_eq_or_of_lt (by omega)]

end Mem
