/-
  File:      PeachKernel/Lib/Slice.lean
  Subject:   Ranges of a sequence, and sequences that are stored in pieces of one size.

  * `slice` -- `n` values of a sequence from an index on, as a list;
  * `pieced` -- the sequence whose values lie in pieces of `size` values each, one piece after the
    other: what the bytes of a file are when its clusters are scattered over a disk;
  * `pieced_within` -- a range that does not cross the end of its piece is a range of that piece.
-/
import Mathlib.Data.List.GetD
import Mathlib.Tactic.Ring

variable {α : Type}

/-! ## 1. Ranges -/

/-- The values `f a`, …, `f (a + n - 1)`. -/
def slice (f : Nat → α) (a n : Nat) : List α := (List.range n).map fun i => f (a + i)

@[simp] theorem slice_zero (f : Nat → α) (a : Nat) : slice f a 0 = [] := rfl

@[simp] theorem slice_length (f : Nat → α) (a n : Nat) : (slice f a n).length = n := by
  simp [slice]

theorem slice_getD {f : Nat → α} (a : Nat) {n i : Nat} (x : α) (h : i < n) :
    (slice f a n).getD i x = f (a + i) := by
  unfold slice
  rw [List.getD_eq_getElem _ _ (by simpa using h), List.getElem_map, List.getElem_range]

theorem slice_append (f : Nat → α) (a m n : Nat) :
    slice f a m ++ slice f (a + m) n = slice f a (m + n) := by
  simp [slice, List.range_add, Nat.add_assoc]

theorem slice_congr {f g : Nat → α} {a b n : Nat} (h : ∀ i, i < n → f (a + i) = g (b + i)) :
    slice f a n = slice g b n :=
  List.map_congr_left fun i hi => h i (List.mem_range.mp hi)

/-- A range of a range. -/
theorem take_drop_slice (f : Nat → α) (a : Nat) {p n len : Nat} (h : p + n ≤ len) :
    ((slice f a len).drop p).take n = slice f (a + p) n := by
  obtain ⟨m, rfl⟩ := Nat.exists_eq_add_of_le h
  rw [← slice_append, ← slice_append, List.append_assoc]
  rw [List.drop_left' (slice_length f a p), List.take_left' (slice_length f (a + p) n)]

/-! ## 2. Pieces of one size -/

/-- Value `k` of the sequence whose piece `j` is `piece j`, `size` values long. -/
def pieced (piece : Nat → Nat → α) (size k : Nat) : α := piece (k / size) (k % size)

theorem pieced_block (piece : Nat → Nat → α) {size q r : Nat} (h : r < size) :
    pieced piece size (size * q + r) = piece q r := by
  unfold pieced
  rw [Nat.mul_add_mod, Nat.mod_eq_of_lt h, Nat.mul_add_div (Nat.zero_lt_of_lt h),
    Nat.div_eq_of_lt h, Nat.add_zero]

theorem pieced_of_lt (piece : Nat → Nat → α) {size k i : Nat} (h : k % size + i < size) :
    pieced piece size (k + i) = piece (k / size) (k % size + i) := by
  have e : k + i = size * (k / size) + (k % size + i) := by
    rw [← Nat.add_assoc, Nat.div_add_mod]
  rw [e, pieced_block piece h]

/-- The values behind the end of a piece are those of the next one. -/
theorem pieced_of_ge (piece : Nat → Nat → α) {size k i : Nat} (h1 : size ≤ k % size + i)
    (h2 : k % size + i < size + size) :
    pieced piece size (k + i) = piece (k / size + 1) (k % size + i - size) := by
  have e : k + i = size * (k / size + 1) + (k % size + i - size) := by
    have := Nat.div_add_mod k size
    rw [Nat.mul_add, Nat.mul_one]
    omega
  rw [e, pieced_block piece (by omega)]

/-- A range inside one piece. -/
theorem pieced_within (piece : Nat → Nat → α) {size k n : Nat} (h : k % size + n ≤ size) :
    slice (pieced piece size) k n = slice (piece (k / size)) (k % size) n :=
  slice_congr fun _ hi => pieced_of_lt piece (by omega)
