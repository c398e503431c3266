/-
  File:      PeachKernel/Heap/Borrowed.lean
  Subject:   Kernel code that takes blocks and is to leave the heap table as it was.

  The code asks for objects of at most a page, keeps the pointers, null or not, and gives back what
  it has. `Since` (`Heap/Since.lean`) says what such code owns; here it is also said that nothing
  else of the table has changed.

  * `held` -- what a pointer stands for: one allocation, or none;
  * `Borrows.request`, `Borrows.giveBack` -- a request, and a release, whatever the pointer is;
  * `Borrows.sameTable_iff` -- the table is as before exactly where nothing is owned;
  * `Heap.FreeTail` -- free blocks that end the table: requests that are small enough to be granted.
-/
import PeachKernel.Heap.Since

namespace PeachKernel

open CInt Mem

/-! ## 1. What is owned -/

/-- The allocation that a request has brought: none for the null pointer. -/
def held (ptr size : Nat) : List Allocation := if ptr = 0 then [] else [⟨ptr, size⟩]

theorem held_eq_nil_iff (ptr size : Nat) : held ptr size = [] ↔ ptr = 0 := by
  unfold held
  split <;> simp [*]

/-- **Between `k₀` and `k`** the code has taken `own`, and changed no other entry of the table. -/
structure Borrows (k₀ k : Kernel) (own : List Allocation) : Prop extends Since k₀ k own where
  same : ∀ b, b < k₀.heap.table.total → (∀ x ∈ own, ¬ (x.extent k₀.heap.saddr).Has b) →
    k.heap.table.entries b = k₀.heap.table.entries b

section Borrows

variable {k₀ k : Kernel} {own : List Allocation} {ptr size : Nat}

theorem Borrows.refl (hp : k.heap.Placed) (hn : k.heap.NullStops) : Borrows k k [] :=
  { Since.refl hp hn with same := fun _ _ _ => rfl }

theorem Borrows.permute (h : Borrows k₀ k own) {own' : List Allocation} (hp : own'.Perm own) :
    Borrows k₀ k own' :=
  { h.toSince.perm hp with
    same := fun b hb hno => h.same b hb fun x hx => hno x (hp.symm.subset hx) }

/-- **A request**, granted or not. -/
theorem Borrows.request (h : Borrows k₀ k own) (h1 : 1 ≤ size) (h2 : size ≤ 4096) :
    Borrows k₀ (kzalloc k size).2 (held (kzalloc k size).1 size ++ own) := by
  by_cases h0 : (kzalloc k size).1 = 0
  · rw [kzalloc_null h.inv.placed h1 h2 h0]
    exact h
  · have hf := freeBlocks_pos h.inv.placed h1 h2 h0
    obtain ⟨ptr, k', e, hg, -⟩ := kzalloc_grows h.inv hf size h1 h2
    have hsince := h.toSince.grant h1 h2 h0
    have hheld : held (kzalloc k size).1 size = [⟨(kzalloc k size).1, size⟩] := if_neg h0
    rw [hheld]
    refine { hsince with same := fun b hb hno => ?_ }
    rw [e] at hno ⊢
    -- the entry lies off the new block, and off the old ones
    refine (hg.off b fun x hx => ?_).trans
      (h.same b hb fun x hx => hno x (List.mem_cons_of_mem _ hx))
    rw [List.mem_singleton.mp hx, hg.saddr, h.saddr, Extent.hasInt_natCast]
    exact hno _ List.mem_cons_self

/-- **A release of what a pointer stands for.** -/
theorem Borrows.giveBack (hc : k₀.heap.Clean) (h : Borrows k₀ k (held ptr size ++ own)) :
    Borrows k₀ (kfree k ptr) own := by
  unfold held at h
  by_cases h0 : ptr = 0
  · rw [if_pos h0] at h
    rw [h0]
    exact { h.toSince.free_null with
      same := fun b hb hno => (heapFree_null h.stops b).trans (h.same b hb hno) }
  · rw [if_neg h0] at h
    refine { h.toSince.free_own with same := fun b hb hno => ?_ }
    have hentry := heapFree_entries h.inv List.mem_cons_self (b : Int)
    refine hentry.trans ?_
    rw [h.saddr]
    by_cases hin : ((⟨ptr, size⟩ : Allocation).extent k₀.heap.saddr).Has b
    · -- a block of the allocation was free, and its entry 0
      rw [if_pos ((Extent.hasInt_natCast _ _).mpr hin)]
      exact (hc b hb (h.fresh _ List.mem_cons_self b hin)).symm
    · rw [if_neg fun h' => hin ((Extent.hasInt_natCast _ _).mp h')]
      refine h.same b hb fun x hx => ?_
      rcases List.mem_cons.mp hx with rfl | hx
      · exact hin
      · exact hno x hx

/-- **The table is as before exactly where nothing is owned.** -/
theorem Borrows.sameTable_iff (h : Borrows k₀ k own) : SameTable k₀.heap k.heap ↔ own = [] := by
  constructor
  · intro hsame
    by_contra hne
    obtain ⟨x, hx⟩ := List.exists_mem_of_ne_nil own hne
    have hpos : 0 < (x.extent k₀.heap.saddr).len := h.inv.pos hx
    have hin := h.inv.inside hx
    rw [h.saddr, h.total] at hin
    -- the first block of an allocation was free, and is taken
    have hb : (x.extent k₀.heap.saddr).Has (x.extent k₀.heap.saddr).start :=
      ⟨Nat.le_refl _, by omega⟩
    have htaken : ¬ k.heap.IsFree (x.extent k₀.heap.saddr).start :=
      h.inv.not_isFree hx (by rw [h.saddr]; exact hb)
    refine htaken ?_
    have hfree := h.fresh x hx _ hb
    unfold Heap.IsFree at hfree ⊢
    rwa [hsame _ (by omega)]
  · rintro rfl
    exact fun b hb => h.same b hb fun x hx => absurd hx List.not_mem_nil

end Borrows

/-! ## 2. Counting -/

/-- A request takes one block, while there is one. -/
theorem kzalloc_freeBlocks {k : Kernel} (hp : k.heap.Placed) {size : Nat} (h1 : 1 ≤ size)
    (h2 : size ≤ 4096) : freeBlocks (kzalloc k size).2.heap = freeBlocks k.heap - 1 := by
  by_cases hf : freeBlocks k.heap = 0
  · rw [kzalloc_full hp hf h1 h2, hf]
  · obtain ⟨ptr, k', e, -, -, hf'⟩ := kzalloc_one hp (Nat.pos_of_ne_zero hf) size h1 h2
    rw [e]
    exact Nat.eq_sub_of_add_eq hf'

/-- **A request of any size that is not granted** changes nothing. -/
theorem kzalloc_refused {k : Kernel} (hp : k.heap.Placed) {size : Nat} (hs : size < 4294967296)
    (h0 : (kzalloc k size).1 = 0) : (kzalloc k size).2 = k := by
  rw [kzalloc_ptr] at h0
  unfold kzalloc kmalloc
  rcases heapMalloc_ways hp hs with e | ⟨b, n, -, e, -⟩
  · rw [e]
    rfl
  · have hpos := hp.pos
    rw [e] at h0
    dsimp only at h0
    omega

/-! ## 3. The blocks that end the table -/

/-- The last `n` blocks of the table are free. -/
structure Heap.FreeTail (heap : Heap) (n : Nat) : Prop where
  placed : heap.Placed
  le : n ≤ heap.table.total
  free : ∀ i, heap.table.total ≤ i + n → i < heap.table.total → heap.IsFree i

theorem kernelHeap_freeTail (entries : Int → UInt8) : (kernelHeap entries).FreeTail 25600 where
  placed := kernelHeap_placed entries
  le := Nat.le_refl _
  free _ _ hi := kernelHeap_isFree entries hi

section Tail

variable {k : Kernel} {heap : Heap} {n size : Nat}

/-- **A small request** is granted, in the first free block. -/
theorem Heap.FreeTail.take (h : k.heap.FreeTail (n + 1)) (h1 : 1 ≤ size) (h2 : size ≤ 4096) :
    (kzalloc k size).1 ≠ 0 ∧ (kzalloc k size).2.heap.FreeTail n := by
  have hle := h.le
  have hblocks := blocksFor_one h1 h2
  -- the first block of the tail would do
  have hrun : IsRun k.heap.IsFree (k.heap.table.total - (n + 1)) 1 :=
    fun i h3 h4 => h.free i (by omega) (by omega)
  have hroom : HasRun k.heap.IsFree k.heap.table.total (blocksFor size) :=
    ⟨k.heap.table.total - (n + 1), by omega, by rw [hblocks]; exact hrun⟩
  rcases kzalloc_serves h.placed (by omega) (Or.inl ⟨h1, hroom⟩) with ⟨b, hb, e⟩ | ⟨hno, -⟩
  · have hpos := h.placed.pos
    have hfirst := hb.first
    rw [hblocks] at hfirst
    have hlow := hfirst.2.2 (k.heap.table.total - (n + 1)) (by omega) hrun
    rw [e, hblocks]
    refine ⟨by dsimp only; omega, ⟨?_, ?_, fun i hi hlt => ?_⟩⟩
    · exact h.placed.congr (heapMarkBlocksTaken_total ..) rfl
    · rw [heapMarkBlocksTaken_total]
      omega
    · rw [heapMarkBlocksTaken_total] at hi hlt
      have hother := heapMarkBlocksTaken_other k.heap b 1 (i := i) fun hin => by
        have hlt : i < b + 1 := hin.2
        omega
      unfold Heap.IsFree
      rw [hother]
      exact h.free i (by omega) hlt
  · exact absurd ⟨h1, hroom⟩ hno

/-- A release keeps what is free. -/
theorem Heap.FreeTail.release (h : heap.FreeTail n) (ptr : Nat) :
    (heapFree heap ptr).FreeTail n where
  placed := h.placed.free ptr
  le := by
    rw [heapFree_total]
    exact h.le
  free i hi hlt := by
    rw [heapFree_total] at hi hlt
    have hentry := markFreeLoop_entry (heap.table.total - heapAddressToBlock heap ptr).toNat
      (heapAddressToBlock heap ptr) heap.table i
    have hfree := h.free i hi hlt
    unfold heapFree heapMarkBlocksFree Heap.IsFree at *
    rcases hentry with e | e
    · rw [e]
      exact hfree
    · rw [e]
      decide

/-- **A request of any size is answered** while the last block is free. -/
theorem Heap.FreeTail.answered (h : k.heap.FreeTail (n + 1)) (hs : size < 4294967296) :
    (kzalloc k size).1 ≠ 0 := by
  have hle := h.le
  have hpos := h.placed.pos
  have hlast : k.heap.IsFree (k.heap.table.total - 1) := h.free _ (by omega) (by omega)
  rw [kzalloc_ptr]
  by_cases hz : size = 0 ∨ 0xFFFFF000 < size
  · rcases heapMalloc_zero h.placed hz hs with ⟨b, -, e⟩ | ⟨hno, -⟩
    · rw [e]
      dsimp only
      omega
    · exact absurd hlast (hno _ (by omega))
  · rcases heapMalloc_spec h.placed (show 1 ≤ size by omega) (by omega) with
      ⟨b, -, e⟩ | ⟨-, b, -, e⟩ | ⟨-, hno, -⟩
    · rw [e]
      dsimp only
      omega
    · rw [e]
      dsimp only
      omega
    · exact absurd hlast (hno _ (by omega))

end Tail

end PeachKernel
