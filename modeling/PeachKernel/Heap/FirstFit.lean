/-
  File:      PeachKernel/Heap/FirstFit.lean
  Subject:   `heap_get_start_block` on any table: the first run that is long enough.

  The counters `bc` and `bs` of the scan are `int`s. `bs` takes its value from an unsigned index,
  and `bc` is compared with an unsigned number of blocks; so here the scan is also given with every
  conversion that the source has. In a table of less than `2^31` entries none of them changes a
  value, and in a longer one the answer is the converted index.

  * `startBlockLoopInt`, `heapGetStartBlockInt` -- the scan, counter by counter as the machine has
    it;
  * `startBlockLoopInt_eq` -- it is the scan of `Heap/Table.lean`, converted;
  * `heapGetStartBlock_first` -- first fit.
-/
import PeachKernel.Heap.Spec

namespace PeachKernel

open CInt

/-! ## 1. The counters of the machine -/

/-- The loop of `heap_get_start_block` over the last `left` entries, with `int bc` and `int bs`. -/
def startBlockLoopInt (entries : Int → UInt8) (totalBlocks : Nat) :
    (left i : Nat) → (bc bs : Int) → Int
  | 0, _, _, bs => bs
  | left + 1, i, bc, bs =>
    if heapGetEntryType (entries i) ≠ entryFree then
      startBlockLoopInt entries totalBlocks left (i + 1) 0 (-1)
    else
      let bs := if bs = -1 then i32 i else bs
      let bc := i32 (bc + 1)
      if u32 bc = totalBlocks then bs
      else startBlockLoopInt entries totalBlocks left (i + 1) bc bs

def heapGetStartBlockInt (heap : Heap) (totalBlocks : Nat) : Int :=
  let bs := startBlockLoopInt heap.table.entries totalBlocks heap.table.total 0 0 (-1)
  if bs = -1 then -ENOMEM else bs

/-- The counter of blocks, compared as the source compares it. -/
theorem u32_i32_natCast {n : Nat} (h : n < 4294967296) : u32 (i32 n) = n := by
  unfold u32 i32
  split <;> omega

/-- No index of a table is taken for "no run". -/
theorem i32_natCast_ne {n : Nat} (h : n < 4294967295) : i32 n ≠ -1 := by
  unfold i32
  split <;> omega

theorem i32_zero : i32 ((0 : Nat) : Int) = 0 := by decide

theorem i32_noRun : i32 (-1) = -1 := by decide

/-- **The conversions commute with the scan**, in a table that an unsigned index can run through. -/
theorem startBlockLoopInt_eq (entries : Int → UInt8) (n : Nat) (left : Nat) :
    ∀ {i bc : Nat} {bs : Int}, i + left < 4294967296 → bc ≤ i →
    (bs = -1 ∨ ∃ s : Nat, bs = s ∧ s < i) → startBlockLoopInt entries n left i (i32 bc) (i32 bs) =
      i32 (startBlockLoop entries n left i bc bs) := by
  -- on the entries ahead; the counters of the two scans are each other's conversions
  induction left with
  | zero => exact fun _ _ _ => rfl
  | succ left ih =>
    intro i bc bs hi hbc hbs
    rw [startBlockLoopInt, startBlockLoop]
    by_cases hf : heapGetEntryType (entries i) ≠ entryFree
    · have hreset := @ih (i + 1) 0 (-1) (by omega) (Nat.zero_le _) (Or.inl rfl)
      rw [i32_zero, i32_noRun] at hreset
      rw [if_pos hf, if_pos hf]
      exact hreset
    rw [if_neg hf, if_neg hf]
    have hstart : (if i32 bs = -1 then i32 i else i32 bs) =
        i32 (if bs = -1 then (i : Int) else bs) := by
      rcases hbs with rfl | ⟨s, rfl, hs⟩
      · rw [if_pos i32_noRun, if_pos rfl]
      · rw [if_neg (i32_natCast_ne (by omega)), if_neg (by omega)]
    have hcount : i32 (i32 bc + 1) = i32 ((bc + 1 : Nat) : Int) := i32_i32_add _ _
    have hbs' : (if bs = -1 then (i : Int) else bs) = -1 ∨
        ∃ s : Nat, (if bs = -1 then (i : Int) else bs) = s ∧ s < i + 1 := by
      rcases hbs with rfl | ⟨s, rfl, hs⟩
      · exact Or.inr ⟨i, rfl, Nat.lt_succ_self i⟩
      · exact Or.inr ⟨s, if_neg (by omega), by omega⟩
    dsimp only
    rw [hstart, hcount, u32_i32_natCast (show bc + 1 < 4294967296 by omega)]
    by_cases hn : bc + 1 = n
    · rw [if_pos hn, if_pos hn]
    · rw [if_neg hn, if_neg hn]
      exact ih (by omega) (by omega) hbs'

/-! ## 2. First fit -/

/-- **Where a run of `n` free blocks exists, the answer is the start of the lowest one**, whatever
    else the table has; the machine answers this index as an `int`. -/
theorem heapGetStartBlock_first (heap : Heap) {n : Nat} (hn : 0 < n)
    (hrun : HasRun heap.IsFree heap.table.total n) :
    ∃ s : Nat, FirstRun heap.IsFree heap.table.total n s ∧ heapGetStartBlock heap n = s ∧
      (heap.table.total < 4294967296 → heapGetStartBlockInt heap n = i32 s) := by
  rcases heapGetStartBlock_spec heap hn with ⟨s, e, hs⟩ | ⟨hno, -⟩ | ⟨hno, -⟩
  · refine ⟨s, hs, e, fun htotal => ?_⟩
    have hloop : startBlockLoop heap.table.entries n heap.table.total 0 0 (-1) = s := by
      unfold heapGetStartBlock at e
      dsimp only at e
      split at e
      · exact absurd e (by unfold ENOMEM; omega)
      · exact e
    have hint := @startBlockLoopInt_eq heap.table.entries n heap.table.total 0 0 (-1) (by omega)
      (Nat.le_refl 0) (Or.inl rfl)
    rw [hloop] at hint
    have hlt := hs.1
    rw [i32_zero, i32_noRun] at hint
    unfold heapGetStartBlockInt
    dsimp only
    rw [hint, if_neg (i32_natCast_ne (by omega))]
  · exact absurd hrun hno
  · exact absurd hrun hno

/-- Blocks 0 and 2 of six are taken; the others are free, some with bits above the type. -/
theorem heapGetStartBlock_first_six : ∃ s : Nat,
    heapGetStartBlock ⟨⟨fun i => if i = 0 ∨ i = 2 then 0xC1 else 0x80, 6⟩, 0x01000000⟩ 2 = s ∧
      FirstRun (Heap.IsFree ⟨⟨fun i => if i = 0 ∨ i = 2 then 0xC1 else 0x80, 6⟩, 0x01000000⟩)
        6 2 s := by
  have hrun :
      IsRun (Heap.IsFree ⟨⟨fun i => if i = 0 ∨ i = 2 then 0xC1 else 0x80, 6⟩, 0x01000000⟩) 4 2 := by
    intro i h1 h2
    obtain rfl | rfl : i = 4 ∨ i = 5 := by omega
    all_goals decide
  obtain ⟨s, hs, e, -⟩ := heapGetStartBlock_first
    ⟨⟨fun i => if i = 0 ∨ i = 2 then 0xC1 else 0x80, 6⟩, 0x01000000⟩ (show 0 < 2 by decide)
    ⟨4, by decide, hrun⟩
  exact ⟨s, e, hs⟩

end PeachKernel
