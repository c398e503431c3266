/-
  File:      PeachKernel/Lib/Ring.lean
  Subject:   A ring of cells that marks its empty cells by a value, without counting them.

  The cells `0 .. n-1` are filled in turn, around the end, and emptied in the same order. A cell
  that holds no element holds the value `empty`; a reader finds the ring drained where its next cell
  is `empty`.

  * `RingHolds` -- the cells from `head` on hold a list, all others are empty;
  * `RingHolds.push`, `RingHolds.pop` -- filling the next free cell, emptying the first one;
  * `RingHolds.first` -- what the reader finds in its cell.
-/
import Mathlib.Data.List.GetD
import Mathlib.Data.Nat.ModEq
import Mathlib.Logic.Function.Basic

variable {α : Type} {n head : Nat} {cell : Nat → α} {empty : α} {xs : List α}

/-- **The cells from `head` on hold `xs`**, and the others are empty. -/
structure RingHolds (n : Nat) (cell : Nat → α) (empty : α) (head : Nat) (xs : List α) : Prop where
  length_le : xs.length ≤ n
  cells : ∀ i, i < n → cell ((head + i) % n) = xs.getD i empty

theorem RingHolds.nil (h : ∀ i, i < n → cell i = empty) : RingHolds n cell empty head [] where
  length_le := Nat.zero_le n
  cells i hi := h _ (Nat.mod_lt _ (by omega))

/-- Two offsets below `n` lead to different cells. -/
theorem ring_index_inj {i j : Nat} (hi : i < n) (hj : j < n)
    (h : (head + i) % n = (head + j) % n) : i = j := by
  have : i ≡ j [MOD n] := Nat.ModEq.add_left_cancel' head h
  rwa [Nat.ModEq, Nat.mod_eq_of_lt hi, Nat.mod_eq_of_lt hj] at this

/-- The reader's cell. -/
theorem RingHolds.first (h : RingHolds n cell empty head xs) (hn : 0 < n) :
    cell (head % n) = xs.headD empty := by
  have := h.cells 0 hn
  rw [Nat.add_zero] at this
  rw [this]
  cases xs <;> rfl

/-- **An element behind the last one**, while a cell is free. -/
theorem RingHolds.push (h : RingHolds n cell empty head xs) (hl : xs.length < n) (x : α) :
    RingHolds n (Function.update cell ((head + xs.length) % n) x) empty head (xs ++ [x]) where
  length_le := by
    rw [List.length_append, List.length_singleton]
    omega
  cells i hi := by
    rcases Nat.lt_trichotomy i xs.length with hlt | heq | hgt
    · have hne : (head + i) % n ≠ (head + xs.length) % n := fun e =>
        absurd (ring_index_inj hi hl e) (by omega)
      rw [Function.update_of_ne hne, h.cells i hi, List.getD_append _ _ _ _ hlt]
    · subst heq
      rw [Function.update_self, List.getD_append_right _ _ _ _ (Nat.le_refl _), Nat.sub_self]
      rfl
    · have hne : (head + i) % n ≠ (head + xs.length) % n := fun e =>
        absurd (ring_index_inj hi hl e) (by omega)
      rw [Function.update_of_ne hne, h.cells i hi, List.getD_eq_default _ _ (by omega),
        List.getD_eq_default _ _ (by simp; omega)]

/-- **The first element is taken out**, and its cell emptied. -/
theorem RingHolds.pop {x : α} (h : RingHolds n cell empty head (x :: xs)) :
    RingHolds n (Function.update cell (head % n) empty) empty (head + 1) xs where
  length_le := by
    have := h.length_le
    rw [List.length_cons] at this
    omega
  cells i hi := by
    by_cases hlast : i + 1 = n
    · have hlen := h.length_le
      rw [List.length_cons] at hlen
      rw [Nat.add_assoc, Nat.add_comm 1 i, hlast, Nat.add_mod_right, Function.update_self,
        List.getD_eq_default _ _ (by omega)]
    · have hi' : i + 1 < n := by omega
      have hne : (head + 1 + i) % n ≠ head % n := fun e => by
        have h0 : (head + (i + 1)) % n = (head + 0) % n := by
          rw [Nat.add_comm i 1, ← Nat.add_assoc]
          exact e
        have := ring_index_inj hi' (by omega) h0
        omega
      rw [Function.update_of_ne hne, Nat.add_assoc, Nat.add_comm 1 i, h.cells _ hi',
        List.getD_cons_succ]
