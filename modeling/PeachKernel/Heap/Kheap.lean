/-
  File:      PeachKernel/Heap/Kheap.lean
  Subject:   The kernel's allocator `memory/heap/kheap.c`: the heap together with the memory its
             blocks lie in.

  The heap table and the memory are two parts of the state. The table's own bytes are the entries of
  `HeapTable`, so `Kernel.mem` is read and written only outside the table.

  * `kmalloc`, `kzalloc`, `kfree` -- the source functions;
  * `Heap.Serves` -- the requests that the heap answers as an allocator should: there is a run for
    them, or the last block of the table is taken (any size, 0 included);
  * `Heap.NullStops` -- the release of the null pointer ends before it reaches the table;
  * `kzalloc_serves` -- such a request takes the first run and clears its bytes, or it changes
    nothing. What is left out of `Serves` are the requests answered by the free run that ends the
    table although it is too short, or although no block is asked for (`heapMalloc_zero`).
-/
import PeachKernel.Heap.Live
import PeachKernel.Lib.ByteMem

namespace PeachKernel

open CInt Mem

/-! ## 1. The source functions -/

/-- The kernel's heap and its memory. -/
@[ext] structure Kernel where
  heap : Heap
  mem : Mem

def kmalloc (k : Kernel) (size : Nat) : Nat × Kernel :=
  match heapMalloc k.heap size with
  | (ptr, heap) => (ptr, { k with heap := heap })

def kzalloc (k : Kernel) (size : Nat) : Nat × Kernel :=
  match kmalloc k size with
  | (ptr, k) => if ptr = 0 then (0, k) else (ptr, { k with mem := fill k.mem ptr 0x00 size })

def kfree (k : Kernel) (ptr : Nat) : Kernel := { k with heap := heapFree k.heap ptr }

/-- The heap behind `kzalloc` is the one behind `heap_malloc`. -/
theorem kzalloc_heap (k : Kernel) (size : Nat) :
    (kzalloc k size).2.heap = (heapMalloc k.heap size).2 := by
  unfold kzalloc kmalloc
  dsimp only
  split <;> rfl

/-- ... and so is the answer. -/
theorem kzalloc_ptr (k : Kernel) (size : Nat) :
    (kzalloc k size).1 = (heapMalloc k.heap size).1 := by
  unfold kzalloc kmalloc
  dsimp only
  split
  · rename_i h
    exact h.symm
  · rfl

theorem kzalloc_placed {k : Kernel} (hp : k.heap.Placed) (size : Nat) :
    (kzalloc k size).2.heap.Placed := by
  rw [kzalloc_heap]
  exact hp.malloc size

/-! ## 2. Requests for no block

A size of 0, and a size whose rounding leaves the 32 bits, ask for 0 blocks. -/

/-- The scan counts at least one block before it compares, so a request for 0 blocks runs to the end
    of the table, as a request for more blocks than there are. -/
theorem startBlockLoop_zero (entries : Int → UInt8) (n left : Nat) :
    ∀ (i bc : Nat) (bs : Int), bc + left < n →
      startBlockLoop entries 0 left i bc bs = startBlockLoop entries n left i bc bs := by
  induction left with
  | zero =>
    intro i bc bs _
    rfl
  | succ left ih =>
    intro i bc bs h
    unfold startBlockLoop
    by_cases hf : heapGetEntryType (entries i) = entryFree
    · have hf' : ¬ heapGetEntryType (entries i) ≠ entryFree := not_not_intro hf
      have h0 : ¬ bc + 1 = 0 := Nat.succ_ne_zero bc
      have hn : ¬ bc + 1 = n := by omega
      rw [if_neg hf', if_neg hf']
      dsimp only
      rw [if_neg h0, if_neg hn]
      exact ih _ _ _ (by omega)
    · rw [if_pos hf, if_pos hf]
      exact ih _ _ _ (by omega)

theorem heapAlignValueToUpper_zero {size : Nat} (h : size = 0 ∨ 0xFFFFF000 < size)
    (hs : size < 4294967296) : heapAlignValueToUpper size / 4096 = 0 := by
  unfold heapAlignValueToUpper
  rcases h with rfl | h
  · decide
  · rw [if_neg (by omega)]
    unfold u32
    omega

/-- **A request for 0 blocks** gets the start of the free run that ends the table, with no block
    marked; where the last block is taken it gets no memory. -/
theorem heapMalloc_zero {heap : Heap} (hp : heap.Placed) {size : Nat}
    (h : size = 0 ∨ 0xFFFFF000 < size) (hs : size < 4294967296) :
    (∃ b, TailRun heap.IsFree heap.table.total b ∧
      heapMalloc heap size = (heap.saddr + b * 4096, heap)) ∨
    ((∀ i, i + 1 = heap.table.total → ¬ heap.IsFree i) ∧ heapMalloc heap size = (0, heap)) := by
  have e0 : heapGetStartBlock heap 0 = heapGetStartBlock heap (heap.table.total + 1) := by
    unfold heapGetStartBlock
    rw [startBlockLoop_zero _ (heap.table.total + 1) _ 0 0 (-1) (by omega)]
  have em : heapMalloc heap size = heapMallocBlock heap 0 := by
    unfold heapMalloc
    rw [heapAlignValueToUpper_zero h hs]
  rw [em]
  unfold heapMallocBlock
  dsimp only
  rw [e0]
  rcases heapGetStartBlock_spec heap (Nat.succ_pos heap.table.total) with
    ⟨b, _, hb⟩ | ⟨_, b, e, hb⟩ | ⟨_, e, hl⟩
  · have := hb.1
    omega
  · refine Or.inl ⟨b, hb, ?_⟩
    rw [e, if_neg (by omega), heapBlockToAddress_of_le hp (by have := hb.1; omega)]
    rfl
  · refine Or.inr ⟨hl, ?_⟩
    rw [e, if_pos (by decide)]

/-! ## 3. Requests the heap serves -/

/-- The address of a block is that of a page. -/
theorem block_aligned {heap : Heap} (hp : heap.Placed) (b : Nat) :
    (heap.saddr + b * 4096) % 4096 = 0 := by
  have := hp.aligned
  omega

/-- A run of free blocks holds the `size ≥ 1` bytes, or the last block of the table is taken. -/
def Heap.Serves (heap : Heap) (size : Nat) : Prop :=
  (1 ≤ size ∧ HasRun heap.IsFree heap.table.total (blocksFor size)) ∨
  ∀ i, i + 1 = heap.table.total → ¬ heap.IsFree i

theorem kernelHeap_serves (entries : Int → UInt8) {size : Nat} (h1 : 1 ≤ size)
    (h2 : blocksFor size ≤ 25600) : (kernelHeap entries).Serves size :=
  Or.inl ⟨h1, 0, by show 0 + blocksFor size ≤ 25600; omega,
    fun i _ hi => kernelHeap_isFree entries (by omega)⟩

/-- Where a request is granted: the first run that is long enough, clear of the 32-bit limit. -/
structure Granted (heap : Heap) (size b : Nat) : Prop where
  pos : 1 ≤ size
  first : FirstRun heap.IsFree heap.table.total (blocksFor size) b

theorem Granted.size_le {heap : Heap} (hp : heap.Placed) {size b : Nat} (h : Granted heap size b) :
    size ≤ blocksFor size * 4096 ∧ blocksFor size * 4096 < size + 4096 ∧
      heap.saddr + b * 4096 + blocksFor size * 4096 < 4294967296 := by
  have := h.first.1
  have := hp.bound
  unfold blocksFor ceilDiv at *
  omega

/-- **A served request takes the first run, or there is none and nothing changes.** -/
theorem heapMalloc_serves {heap : Heap} (hp : heap.Placed) {size : Nat} (hs : size < 4294967296)
    (h : heap.Serves size) :
    (∃ b, Granted heap size b ∧ heapMalloc heap size =
      (heap.saddr + b * 4096, heapMarkBlocksTaken heap b (blocksFor size))) ∨
    (¬ (1 ≤ size ∧ HasRun heap.IsFree heap.table.total (blocksFor size)) ∧
      heapMalloc heap size = (0, heap)) := by
  by_cases h0 : size = 0 ∨ 0xFFFFF000 < size
  · -- no block is asked for, and no run holds so many bytes
    have hno : ¬ (1 ≤ size ∧ HasRun heap.IsFree heap.table.total (blocksFor size)) := by
      rintro ⟨h1, b, hb, _⟩
      have := hp.span
      unfold blocksFor ceilDiv at hb
      omega
    have hl := h.resolve_left hno
    rcases heapMalloc_zero hp h0 hs with ⟨b, hb, _⟩ | ⟨_, e⟩
    · have := hb.1
      exact absurd hb.last (hl _ (by omega))
    · exact Or.inr ⟨hno, e⟩
  · have h1 : 1 ≤ size := by omega
    rcases heapMalloc_spec hp h1 (by omega) with ⟨b, hb, e⟩ | ⟨hno, b, hb, _⟩ | ⟨hno, _, e⟩
    · exact Or.inl ⟨b, ⟨h1, hb⟩, e⟩
    · have hl := h.resolve_left fun hr => hno hr.2
      have := hb.1
      exact absurd hb.last (hl _ (by omega))
    · exact Or.inr ⟨fun hr => hno hr.2, e⟩

theorem kzalloc_serves {k : Kernel} (hp : k.heap.Placed) {size : Nat} (hs : size < 4294967296)
    (h : k.heap.Serves size) :
    (∃ b, Granted k.heap size b ∧ kzalloc k size = (k.heap.saddr + b * 4096,
      ⟨heapMarkBlocksTaken k.heap b (blocksFor size),
        fill k.mem (k.heap.saddr + b * 4096) 0x00 size⟩)) ∨
    (¬ (1 ≤ size ∧ HasRun k.heap.IsFree k.heap.table.total (blocksFor size)) ∧
      kzalloc k size = (0, k)) := by
  have hpos := hp.pos
  rcases heapMalloc_serves hp hs h with ⟨b, hb, e⟩ | ⟨hno, e⟩
  · refine Or.inl ⟨b, hb, ?_⟩
    simp only [kzalloc, kmalloc, e]
    rw [if_neg (by omega)]
  · refine Or.inr ⟨hno, ?_⟩
    simp only [kzalloc, kmalloc, e, if_true]

/-! ## 4. Heaps with several owners -/

/-- The end of an allocation that the heap represents. -/
theorem HeapInv.end_lt {heap : Heap} {live : List Allocation} (h : HeapInv heap live)
    {a : Allocation} (ha : a ∈ live) :
    a.ptr % 4096 = 0 ∧ a.ptr + blocksFor a.size * 4096 < 4294967296 := by
  have hin : (a.extent heap.saddr).start + blocksFor a.size ≤ heap.table.total := h.inside ha
  have hb := h.placed.bound
  have hal := h.placed.aligned
  have haddr := h.addr a ha
  omega

/-- An owner's allocations are represented as long as their entries stay. -/
theorem HeapInv.congr {heap heap' : Heap} {live : List Allocation} (h : HeapInv heap live)
    (ht : heap'.table.total = heap.table.total) (hs : heap'.saddr = heap.saddr)
    (he : ∀ a ∈ live, ∀ i : Nat, (a.extent heap.saddr).Has i →
      heap'.table.entries i = heap.table.entries i) : HeapInv heap' live where
  placed := h.placed.congr ht hs
  addr a ha := by
    rw [hs]
    exact h.addr a ha
  layout := by
    rw [ht, hs]
    exact h.layout
  chain a ha := by
    rw [hs]
    exact (h.chain a ha).congr fun i hi => he a ha i hi

/-- **Taking a run and giving it back** clears its entries. -/
theorem heapFree_take {heap : Heap} (hp : heap.Placed) {size b : Nat} (h : Granted heap size b)
    (j : Int) :
    (heapFree (heapMarkBlocksTaken heap b (blocksFor size)) (heap.saddr + b * 4096)).table.entries
      j = if (⟨b, blocksFor size⟩ : Extent).HasInt j then entryFree else heap.table.entries j := by
  have hinv := heapInv_take (HeapInv.nil hp) h.pos h.first.1 h.first.2.1
  rw [heapFree_entries hinv List.mem_cons_self, heapMarkBlocksTaken_saddr, extent_of_addr]
  by_cases hj : (⟨b, blocksFor size⟩ : Extent).HasInt j
  · rw [if_pos hj, if_pos hj]
  · have hj' : ¬ ((b : Int) ≤ j ∧ j < b + blocksFor size) := hj
    rw [if_neg hj, if_neg hj, heapMarkBlocksTaken_entries, if_neg hj']

/-! ## 5. Releasing the null pointer -/

/-- The release of the null pointer starts below the table; this is where it stops before it. -/
def Heap.NullStops (heap : Heap) : Prop :=
  ∃ j : Int, heapAddressToBlock heap 0 ≤ j ∧ j < 0 ∧ heap.table.entries j &&& blockHasNext = 0

theorem markFreeLoop_stop (left : Nat) :
    ∀ {i j n : Int} {t : HeapTable}, i ≤ j → t.entries j &&& blockHasNext = 0 → j < n →
      (markFreeLoop left i t).entries n = t.entries n := by
  induction left with
  | zero =>
    intro i j n t _ _ _
    rfl
  | succ left ih =>
    intro i j n t hij hj hn
    have hset : (t.set i entryFree).entries n = t.entries n := by
      rw [HeapTable.set_entries, if_neg (by omega)]
    simp only [markFreeLoop]
    split
    · exact hset
    · rename_i hnext
      have hne : j ≠ i := by
        rintro rfl
        exact hnext hj
      rw [ih (j := j) (by omega) (by rw [HeapTable.set_entries, if_neg hne]; exact hj) hn, hset]

theorem heapFree_null {heap : Heap} (h : heap.NullStops) (n : Nat) :
    (heapFree heap 0).table.entries n = heap.table.entries n := by
  obtain ⟨j, h1, h2, h3⟩ := h
  exact markFreeLoop_stop _ h1 h3 (by omega)

/-- It still does after such a release. -/
theorem Heap.NullStops.free {heap : Heap} (h : heap.NullStops) : (heapFree heap 0).NullStops := by
  obtain ⟨j, h1, h2, h3⟩ := h
  refine ⟨j, h1, h2, ?_⟩
  rcases markFreeLoop_entry (heap.table.total - heapAddressToBlock heap 0).toNat
    (heapAddressToBlock heap 0) heap.table j with e | e
  · exact (congrArg (· &&& blockHasNext) e).trans h3
  · exact (congrArg (· &&& blockHasNext) e).trans (by decide)

/-- It does not depend on the table itself. -/
theorem Heap.NullStops.congr {heap heap' : Heap} (h : heap.NullStops)
    (hs : heap'.saddr = heap.saddr)
    (he : ∀ j : Int, j < 0 → heap'.table.entries j = heap.table.entries j) : heap'.NullStops := by
  obtain ⟨j, h1, h2, h3⟩ := h
  refine ⟨j, ?_, h2, ?_⟩
  · unfold heapAddressToBlock at h1 ⊢
    rw [hs]
    exact h1
  · rw [he j h2]
    exact h3

end PeachKernel
