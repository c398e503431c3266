/-
  File:      PeachKernel/Heap/Edges.lean
  Subject:   `heap_malloc` of any size and `heap_free` of any pointer, on any table.

  User programs choose the size of a request, and the kernel releases pointers that no request gave
  out. Neither function tests its argument. A size of 0, and a size that is rounded up past the 32
  bits, ask for no block; a pointer below the heap gives a negative index, and the loop that
  releases is bounded from above only.

  * `TakesRun`, `NeverAgain` -- what the owner of a non-null answer relies on: blocks of its own
    that hold its bytes, and an address that no other request gets before a release;
  * `heapMalloc_owned_iff` -- both hold exactly where the heap serves the request (`Heap.Serves`);
  * `freeIndexes` -- the entries that a release reads and writes;
  * `heapFree_confined_iff` -- it keeps to the table, and leaves the table alone for a pointer that
    is no live allocation, exactly for the pointers of `Releasable`.
-/
import PeachKernel.Heap.Kheap

namespace PeachKernel

open CInt

/-! ## 1. Requests -/

/-- **A non-null answer is a run of its own**: blocks of the table that were free, that the call has
    marked, and that hold the bytes asked for. -/
def TakesRun (heap : Heap) (size : Nat) : Prop :=
  (heapMalloc heap size).1 ≠ 0 → ∃ b n, (heapMalloc heap size).1 = heap.saddr + b * 4096 ∧
    0 < n ∧ b + n ≤ heap.table.total ∧ size ≤ n * 4096 ∧ ∀ i, b ≤ i → i < b + n →
      heap.IsFree i ∧ heapGetEntryType ((heapMalloc heap size).2.table.entries i) = entryTaken

/-- The heap behind more requests. -/
def mallocs (heap : Heap) (sizes : List Nat) : Heap :=
  sizes.foldl (fun heap size => (heapMalloc heap size).2) heap

/-- **No other request gets the same address**, however many come in between. -/
def NeverAgain (heap : Heap) (size : Nat) : Prop :=
  (heapMalloc heap size).1 ≠ 0 → ∀ sizes size', (∀ n ∈ sizes, n < 4294967296) →
    size' < 4294967296 →
    (heapMalloc (mallocs (heapMalloc heap size).2 sizes) size').1 ≠ (heapMalloc heap size).1

section Malloc

variable {heap : Heap} {size : Nat}

/-- An answer is the address of a free block, whatever was asked for. -/
theorem heapMalloc_start (hp : heap.Placed) (hs : size < 4294967296)
    (h0 : (heapMalloc heap size).1 ≠ 0) :
    ∃ b, b < heap.table.total ∧ heap.IsFree b ∧
    (heapMalloc heap size).1 = heap.saddr + b * 4096 := by
  have htail : ∀ {b}, TailRun heap.IsFree heap.table.total b → b < heap.table.total ∧
      heap.IsFree b :=
    fun hb => ⟨hb.1, hb.2.1 _ (Nat.le_refl _) (by have := hb.1; omega)⟩
  by_cases hz : size = 0 ∨ 0xFFFFF000 < size
  · rcases heapMalloc_zero hp hz hs with ⟨b, hb, e⟩ | ⟨-, e⟩
    · exact ⟨b, (htail hb).1, (htail hb).2, by rw [e]⟩
    · exact absurd (by rw [e]) h0
  · have h1 : 1 ≤ size := by omega
    rcases heapMalloc_spec hp h1 (by omega) with ⟨b, hb, e⟩ | ⟨-, b, hb, e⟩ | ⟨-, -, e⟩
    · have hpos := blocksFor_pos h1
      have hin := hb.1
      exact ⟨b, by omega, hb.2.1 b (Nat.le_refl _) (by omega), by rw [e]⟩
    · exact ⟨b, (htail hb).1, (htail hb).2, by rw [e]⟩
    · exact absurd (by rw [e]) h0

/-- A block that is taken stays taken. -/
theorem heapMalloc_taken {i : Nat} (h : ¬ heap.IsFree i) : ¬ (heapMalloc heap size).2.IsFree i := by
  rcases heapMalloc_heap heap size with e | ⟨b, e⟩
  · rwa [e]
  · rw [e]
    by_cases hi : (⟨b, heapAlignValueToUpper size / 4096⟩ : Extent).Has i
    · exact Heap.not_isFree_of_chain (heapMarkBlocksTaken_chain heap b _) hi
    · unfold Heap.IsFree
      rw [heapMarkBlocksTaken_other heap b _ hi]
      exact h

theorem mallocs_taken (sizes : List Nat) : ∀ {heap : Heap} {i : Nat}, ¬ heap.IsFree i →
    ¬ (mallocs heap sizes).IsFree i := by
  induction sizes with
  | nil => exact fun h => h
  | cons n sizes ih => exact fun h => ih (heapMalloc_taken h)

theorem mallocs_placed (sizes : List Nat) : ∀ {heap : Heap}, heap.Placed →
    (mallocs heap sizes).Placed ∧ (mallocs heap sizes).saddr = heap.saddr := by
  induction sizes with
  | nil => exact fun h => ⟨h, rfl⟩
  | cons n sizes ih =>
    intro heap h
    obtain ⟨hp, hs⟩ := ih (h.malloc n)
    exact ⟨hp, hs.trans (heapMalloc_saddr heap n)⟩

/-- A request that is served takes its run. -/
theorem Heap.Serves.takesRun (hp : heap.Placed) (hs : size < 4294967296) (h : heap.Serves size) :
    TakesRun heap size := by
  intro h0
  rcases heapMalloc_serves hp hs h with ⟨b, hb, e⟩ | ⟨-, e⟩
  · obtain ⟨hin, hrun, -⟩ := hb.first
    refine ⟨b, blocksFor size, by rw [e], blocksFor_pos hb.pos, hin, (hb.size_le hp).1,
      fun i h1 h2 => ⟨hrun i h1 h2, ?_⟩⟩
    have hk : i - b < blocksFor size := by omega
    have hc := heapMarkBlocksTaken_chain heap b (blocksFor size) (i - b) hk
    rw [show b + (i - b) = i by omega] at hc
    rw [e, hc, chainEntry_type]
  · exact absurd (by rw [e]) h0

/-- The first block of a run that was taken is not free again. -/
theorem TakesRun.neverAgain (hp : heap.Placed) (h : TakesRun heap size) : NeverAgain heap size := by
  intro h0 sizes size' _ hs' e
  obtain ⟨b, n, hb, hn, -, -, hrun⟩ := h h0
  obtain ⟨hp', hsaddr⟩ := mallocs_placed sizes (hp.malloc size)
  obtain ⟨b', -, hfree, hb'⟩ := heapMalloc_start hp' hs' (e ▸ h0)
  have hsame : b' = b := by
    rw [e, hb, hsaddr, heapMalloc_saddr] at hb'
    omega
  have htaken : ¬ (heapMalloc heap size).2.IsFree b := by
    unfold Heap.IsFree
    rw [(hrun b (Nat.le_refl _) (by omega)).2]
    exact entryTaken_ne_free
  exact mallocs_taken sizes htaken (hsame ▸ hfree)

/-- A request that is not served gets an address all the same. -/
theorem heapMalloc_unserved (hp : heap.Placed) (hs : size < 4294967296) (h : ¬ heap.Serves size) :
    (heapMalloc heap size).1 ≠ 0 ∧ (size = 0 → (heapMalloc heap size).2 = heap) := by
  have hpos := hp.pos
  have hlast : ¬ ∀ i, i + 1 = heap.table.total → ¬ heap.IsFree i := fun hl => h (Or.inr hl)
  by_cases hz : size = 0 ∨ 0xFFFFF000 < size
  · rcases heapMalloc_zero hp hz hs with ⟨b, -, e⟩ | ⟨hl, -⟩
    · rw [e]
      exact ⟨Nat.ne_of_gt (Nat.add_pos_left hpos _), fun _ => rfl⟩
    · exact absurd hl hlast
  · refine ⟨?_, fun h0 => absurd (Or.inl h0) hz⟩
    have h1 : 1 ≤ size := by omega
    rcases heapMalloc_spec hp h1 (by omega) with ⟨b, -, e⟩ | ⟨-, b, -, e⟩ | ⟨-, hl, -⟩
    · rw [e]
      exact Nat.ne_of_gt (Nat.add_pos_left hpos _)
    · rw [e]
      exact Nat.ne_of_gt (Nat.add_pos_left hpos _)
    · exact absurd hl hlast

/-- ... and no run that holds its bytes. -/
theorem TakesRun.serves (hp : heap.Placed) (hs : size < 4294967296) (h : TakesRun heap size) :
    heap.Serves size := by
  by_contra hno
  obtain ⟨h0, hsame⟩ := heapMalloc_unserved hp hs hno
  obtain ⟨b, n, -, hn, hin, hsize, hrun⟩ := h h0
  rcases Nat.eq_zero_or_pos size with hz | hpos
  · -- the heap is the one before, so no block was marked
    obtain ⟨hfree, htaken⟩ := hrun b (Nat.le_refl _) (by omega)
    rw [hsame hz] at htaken
    exact entryTaken_ne_free (htaken.symm.trans hfree)
  · have hblocks : blocksFor size ≤ n := by
      unfold blocksFor ceilDiv
      omega
    exact hno (Or.inl ⟨hpos, b, by omega, fun i h1 h2 => (hrun i h1 (by omega)).1⟩)

/-- **The answer belongs to its caller exactly where the heap serves the request**: a run of free
    blocks holds the bytes, and there is at least one; or the last block of the table is taken. -/
theorem heapMalloc_owned_iff (hp : heap.Placed) (hs : size < 4294967296) :
    (TakesRun heap size ∧ NeverAgain heap size) ↔ heap.Serves size := by
  constructor
  · exact fun h => h.1.serves hp hs
  · intro h
    have htakes := h.takesRun hp hs
    exact ⟨htakes, htakes.neverAgain hp⟩

/-- One byte on the fresh kernel heap. -/
theorem heapMalloc_owned_kernel : TakesRun (kernelHeap fun _ => 0) 1 ∧
    NeverAgain (kernelHeap fun _ => 0) 1 :=
  (heapMalloc_owned_iff (kernelHeap_placed _) (by decide)).mpr
    (kernelHeap_serves _ (by decide) (by decide))

/-- **Two requests of 0 bytes on the fresh kernel heap** get one address, and mark no block. -/
theorem heapMalloc_zero_twice : (heapMalloc (kernelHeap fun _ => 0) 0).1 ≠ 0 ∧
    (heapMalloc (heapMalloc (kernelHeap fun _ => 0) 0).2 0).1 =
      (heapMalloc (kernelHeap fun _ => 0) 0).1 ∧
    ¬ TakesRun (kernelHeap fun _ => 0) 0 := by
  have hp := kernelHeap_placed fun _ => 0
  have hno : ¬ (kernelHeap fun _ => 0).Serves 0 := by
    rintro (⟨h1, -⟩ | hl)
    · exact absurd h1 (by decide)
    · exact hl 25599 rfl (kernelHeap_isFree _ (by decide))
  obtain ⟨h0, hsame⟩ := heapMalloc_unserved hp (by decide) hno
  exact ⟨h0, by rw [hsame rfl], fun h => hno (h.serves hp (by decide))⟩

end Malloc

/-! ## 2. Releases -/

/-- The entries that the loop of `heap_mark_blocks_free` reads and writes, in order. -/
def freeIndexes : (left : Nat) → (i : Int) → HeapTable → List Int
  | 0, _, _ => []
  | left + 1, i, t =>
    let entry := t.entries i
    let t := t.set i entryFree
    i :: if entry &&& blockHasNext = 0 then [] else freeIndexes left (i + 1) t

/-- ... and those of `heap_free`. -/
def heapFreeIndexes (heap : Heap) (ptr : Nat) : List Int :=
  freeIndexes (heap.table.total - heapAddressToBlock heap ptr).toNat (heapAddressToBlock heap ptr)
    heap.table

/-- **A release keeps to the table**, and changes nothing for a pointer that is no live
    allocation. -/
def Confined (heap : Heap) (live : List Allocation) (ptr : Nat) : Prop :=
  (∀ i ∈ heapFreeIndexes heap ptr, 0 ≤ i ∧ i < heap.table.total) ∧
  ((∀ a ∈ live, a.ptr ≠ ptr) → heapFree heap ptr = heap)

/-- A live allocation, a pointer behind the table's blocks, or one into a free block. -/
def Releasable (heap : Heap) (live : List Allocation) (ptr : Nat) : Prop :=
  (∃ a ∈ live, a.ptr = ptr) ∨ (heap.table.total : Int) ≤ heapAddressToBlock heap ptr ∨
  (0 ≤ heapAddressToBlock heap ptr ∧
    heap.table.entries (heapAddressToBlock heap ptr) = entryFree)

/-- The loop goes upwards, and no further than its bound. -/
theorem freeIndexes_bounds (left : Nat) : ∀ (i : Int) (t : HeapTable) (j : Int),
    j ∈ freeIndexes left i t → i ≤ j ∧ j < i + left := by
  induction left with
  | zero =>
    intro i t j h
    exact absurd h List.not_mem_nil
  | succ left ih =>
    intro i t j h
    unfold freeIndexes at h
    dsimp only at h
    rcases List.mem_cons.mp h with rfl | h
    · omega
    · split at h
      · exact absurd h List.not_mem_nil
      · have := ih _ _ _ h
        omega

/-- **An entry that is not among them keeps its value.** -/
theorem markFreeLoop_frame (left : Nat) : ∀ (i : Int) (t : HeapTable) (j : Int),
    j ∉ freeIndexes left i t → (markFreeLoop left i t).entries j = t.entries j := by
  induction left with
  | zero => exact fun _ _ _ _ => rfl
  | succ left ih =>
    intro i t j h
    unfold freeIndexes at h
    dsimp only at h
    rw [List.mem_cons, not_or] at h
    obtain ⟨hne, h⟩ := h
    unfold markFreeLoop
    dsimp only
    split
    · simp [hne]
    · rename_i hnext
      rw [if_neg hnext] at h
      rw [ih _ _ _ h]
      simp [hne]

section Free

variable {heap : Heap} {live : List Allocation} {ptr : Nat}

/-- The first entry is cleared, where there is one. -/
theorem markFreeLoop_first (left : Nat) (i : Int) (t : HeapTable) :
    (markFreeLoop (left + 1) i t).entries i = entryFree := by
  unfold markFreeLoop
  dsimp only
  split
  · simp
  · rw [markFreeLoop_frame left _ _ _ fun h => ?_]
    · simp
    · have := freeIndexes_bounds _ _ _ _ h
      omega

/-- A free entry: the loop writes what is there, and stops. -/
theorem markFreeLoop_free (left : Nat) {i : Int} {t : HeapTable} (h : t.entries i = entryFree) :
    markFreeLoop left i t = t := by
  cases left with
  | zero => rfl
  | succ left =>
    unfold markFreeLoop
    dsimp only
    rw [h, if_pos (by decide)]
    ext j
    · simp only [HeapTable.set_entries]
      split
      · rename_i e
        rw [e, h]
      · rfl
    · rfl

/-- Where the index lies in the table, or behind it, the release keeps to the table. -/
theorem heapFreeIndexes_inside (h : 0 ≤ heapAddressToBlock heap ptr) :
    ∀ i ∈ heapFreeIndexes heap ptr, 0 ≤ i ∧ i < heap.table.total := by
  intro i hi
  have := freeIndexes_bounds _ _ _ _ hi
  omega

/-- The entries of a release before the table. -/
theorem heapFreeIndexes_first (h : heapAddressToBlock heap ptr < heap.table.total) :
    heapAddressToBlock heap ptr ∈ heapFreeIndexes heap ptr := by
  unfold heapFreeIndexes
  obtain ⟨left, e⟩ : ∃ left, (heap.table.total - heapAddressToBlock heap ptr).toNat = left + 1 :=
    ⟨_, (Nat.succ_pred_eq_of_pos (by omega)).symm⟩
  rw [e]
  exact List.mem_cons_self

/-- A live allocation's block. -/
theorem HeapInv.block_inside (h : HeapInv heap live) {a : Allocation} (ha : a ∈ live) :
    0 ≤ heapAddressToBlock heap a.ptr := by
  have hin := h.inside ha
  rw [h.addr a ha, heapAddressToBlock_of_le h.placed (by omega)]
  exact Int.natCast_nonneg _

/-- A release into the table clears the entry of its block. -/
theorem heapFree_first (h : heapAddressToBlock heap ptr < heap.table.total) :
    (heapFree heap ptr).table.entries (heapAddressToBlock heap ptr) = entryFree := by
  unfold heapFree heapMarkBlocksFree
  dsimp only
  obtain ⟨left, e⟩ : ∃ left, (heap.table.total - heapAddressToBlock heap ptr).toNat = left + 1 :=
    ⟨_, (Nat.succ_pred_eq_of_pos (by omega)).symm⟩
  rw [e]
  exact markFreeLoop_first left _ _

/-- **A release is confined exactly for these pointers.** -/
theorem heapFree_confined_iff (h : HeapInv heap live) (ptr : Nat) :
    Confined heap live ptr ↔ Releasable heap live ptr := by
  constructor
  · rintro ⟨hin, hsame⟩
    by_contra hno
    unfold Releasable at hno
    push Not at hno
    obtain ⟨hlive, hlt, hentry⟩ := hno
    have h0 := (hin _ (heapFreeIndexes_first hlt)).1
    have hfirst := heapFree_first hlt
    rw [hsame hlive] at hfirst
    exact hentry h0 hfirst
  · rintro (⟨a, ha, rfl⟩ | hge | ⟨h0, hentry⟩)
    · exact ⟨heapFreeIndexes_inside (h.block_inside ha), fun hno => absurd rfl (hno a ha)⟩
    · have hleft : (heap.table.total - heapAddressToBlock heap ptr).toNat = 0 := by omega
      refine ⟨heapFreeIndexes_inside (by omega), fun _ => ?_⟩
      unfold heapFree heapMarkBlocksFree
      rw [hleft]
      rfl
    · refine ⟨heapFreeIndexes_inside h0, fun _ => ?_⟩
      unfold heapFree heapMarkBlocksFree
      rw [markFreeLoop_free _ hentry]

end Free

/-- A pointer into a free block of the fresh kernel heap. -/
theorem heapFree_confined_kernel : Confined (kernelHeap fun _ => 0) [] 0x01001000 := by
  have hp := kernelHeap_placed fun _ => 0
  refine (heapFree_confined_iff (HeapInv.nil hp) _).mpr (Or.inr (Or.inr ?_))
  have hb := heapAddressToBlock_of_le hp (b := 1) (by decide)
  rw [show (0x01001000 : Nat) = (kernelHeap fun _ => 0).saddr + 1 * 4096 from rfl, hb]
  exact ⟨by decide, rfl⟩

/-- **The null pointer on the fresh kernel heap**: entry -4096 is read and written. -/
theorem heapFree_null_outside : heapAddressToBlock (kernelHeap fun _ => 0) 0 = -4096 ∧
    -4096 ∈ heapFreeIndexes (kernelHeap fun _ => 0) 0 ∧ ¬ Confined (kernelHeap fun _ => 0)
      [] 0 := by
  have hb : heapAddressToBlock (kernelHeap fun _ => 0) 0 = -4096 := by decide
  have hlt : heapAddressToBlock (kernelHeap fun _ => 0) 0 <
      (kernelHeap fun _ => 0).table.total := by
    rw [hb]
    decide
  have hmem := heapFreeIndexes_first hlt
  rw [hb] at hmem
  exact ⟨hb, hmem, fun h => absurd (h.1 _ hmem).1 (by decide)⟩

end PeachKernel
