/-
  File:      PeachKernel/Heap/Spec.lean
  Subject:   What one heap operation does: the specification lemma of each function of heap.c.

  * `heapGetStartBlock_spec` -- the scan answers the FIRST run of free blocks of the asked length;
    where there is none it answers the start of the free run that ends the table (`TailRun`),
    however short that is, and `-ENOMEM` only when the table's last block is taken;
  * `heapMalloc_spec` -- the same three cases for the allocation as a whole;
  * `heapMarkBlocksTaken_entries`, `heapMarkBlocksFree_chain` -- the look-ahead of the marking loop
    writes a chain (`chainEntry`), and the releasing loop consumes exactly one chain;
  * `Heap.Placed` -- where a heap can lie in memory; it makes blocks and addresses inverse.

  Callers cite these lemmas; nothing above this file unfolds a loop of heap.c.
-/
import PeachKernel.Heap.Table

namespace PeachKernel

open CInt

/-! ## 1. Where a heap lies -/

/-- An area of memory that a C object can occupy on the 32-bit target: not at the null pointer, not
    around the end of the address space, and of a size that a pointer difference (an `int`)
    holds. -/
structure MemArea where
  ptr : Nat
  endp : Nat
  ptr_pos : 0 < ptr
  ptr_le : ptr ≤ endp
  size_lt : endp - ptr < 2147483648
  endp_lt : endp < 4294967296

/-- The placement `heap_create` establishes. -/
structure Heap.Placed (heap : Heap) : Prop where
  aligned : heap.saddr % 4096 = 0
  pos : 0 < heap.saddr
  span : heap.table.total * 4096 < 2147483648
  bound : heap.saddr + heap.table.total * 4096 < 4294967296

theorem heapCreate_ok {heap : Heap} (area : MemArea) {table : HeapTable} {heap' : Heap}
    (h : heapCreate heap area.ptr area.endp table = (0, heap')) :
    heap' = { table := table.clear, saddr := area.ptr } ∧ heap'.Placed := by
  have hle := area.ptr_le
  have hsz := area.size_lt
  have hend := area.endp_lt
  have hpos := area.ptr_pos
  unfold heapCreate at h
  split at h
  · simp at h
  · rename_i hal
    simp only [Bool.or_eq_true, Bool.not_eq_true', not_or, Bool.not_eq_false,
      heapValidateAlignment, beq_iff_eq] at hal
    dsimp only at h
    split at h
    · rename_i hres
      simp only [Prod.mk.injEq] at h
      omega
    · rename_i hres
      simp only [Prod.mk.injEq] at h
      obtain ⟨hres0, rfl⟩ := h
      refine ⟨rfl, ?_⟩
      have hv : table.total = u32 ((area.endp : Int) - area.ptr) / 4096 := by
        unfold heapValidateTable at hres
        dsimp only at hres
        split at hres
        · simp at hres
        · rename_i hne
          simpa using hne
      rw [u32_of_range (by omega) (by omega)] at hv
      have htot : table.clear.total = table.total := rfl
      constructor <;> dsimp only <;> omega

/-- The area of the kernel heap. -/
def kheapArea : MemArea where
  ptr := 0x01000000
  endp := 0x01000000 + 104857600
  ptr_pos := by decide
  ptr_le := by decide
  size_lt := by decide
  endp_lt := by decide

/-- The kernel heap as `kheap_init` leaves it. -/
def kernelHeap (entries : Int → UInt8) : Heap :=
  { table := HeapTable.clear ⟨entries, 25600⟩, saddr := 0x01000000 }

theorem kheapInit_eq (entries : Int → UInt8) : kheapInit entries = (0, kernelHeap entries) := by
  simp [kheapInit, heapCreate, heapValidateAlignment, heapValidateTable, u32, kernelHeap]

theorem kernelHeap_placed (entries : Int → UInt8) : (kernelHeap entries).Placed :=
  (heapCreate_ok kheapArea (kheapInit_eq entries)).2

@[simp] theorem heapBlockToAddress_of_le {heap : Heap} (h : heap.Placed) {b : Nat}
    (hb : b ≤ heap.table.total) : heapBlockToAddress heap b = heap.saddr + b * 4096 := by
  have := h.bound
  unfold heapBlockToAddress
  rw [u32_of_range (by omega) (by omega)]
  omega

theorem heapAddressToBlock_of_le {heap : Heap} (h : heap.Placed) {b : Nat}
    (hb : b ≤ heap.table.total) : heapAddressToBlock heap (heap.saddr + b * 4096) = b := by
  have := h.span
  unfold heapAddressToBlock
  rw [i32_of_range (by omega) (by omega)]
  have e : ((heap.saddr + b * 4096 : Nat) : Int) - heap.saddr = (b : Int) * 4096 := by omega
  rw [e]
  exact Int.mul_tdiv_cancel _ (by decide)

theorem Heap.Placed.congr {heap heap' : Heap} (h : heap.Placed)
    (ht : heap'.table.total = heap.table.total) (hs : heap'.saddr = heap.saddr) :
    heap'.Placed where
  aligned := by rw [hs]; exact h.aligned
  pos := by rw [hs]; exact h.pos
  span := by rw [ht]; exact h.span
  bound := by rw [ht, hs]; exact h.bound

/-! ## 2. The scan -/

/-- Block `i` has the free type (the low nibble of its entry is `FREE`). -/
def Heap.IsFree (heap : Heap) (i : Nat) : Prop :=
  heapGetEntryType (heap.table.entries i) = entryFree

instance (heap : Heap) (i : Nat) : Decidable (heap.IsFree i) :=
  inferInstanceAs (Decidable (_ = _))

/-- Every block of the fresh kernel heap is free. -/
theorem kernelHeap_isFree (entries : Int → UInt8) {i : Nat} (hi : i < 25600) :
    (kernelHeap entries).IsFree i := by
  have h : (kernelHeap entries).table.entries i = entryFree := by
    simp only [kernelHeap, HeapTable.clear]
    rw [if_pos (by omega)]
  unfold Heap.IsFree
  rw [h]
  decide

section Scan

variable {heap : Heap} {n : Nat}

/-- **The invariant of the scan** before entry `i`: the last `bc` entries are a maximal free run,
    shorter than asked, `bs` is its start, and no run of the asked length ends before `i`. -/
structure ScanInv (heap : Heap) (n i bc : Nat) (bs : Int) : Prop where
  bc_le : bc ≤ i
  bs_eq : bs = if bc = 0 then -1 else ((i - bc : Nat) : Int)
  run : IsRun heap.IsFree (i - bc) bc
  maximal : i - bc = 0 ∨ ¬ heap.IsFree (i - bc - 1)
  none_yet : ∀ s, s + n ≤ i → ¬ IsRun heap.IsFree s n

theorem ScanInv.taken {i bc : Nat} {bs : Int} (h : ScanInv heap n i bc bs)
    (hn : 0 < n) (ht : ¬ heap.IsFree i) : ScanInv heap n (i + 1) 0 (-1) where
  bc_le := Nat.zero_le _
  bs_eq := by simp
  run := fun j h1 h2 => by omega
  maximal := Or.inr ht
  none_yet := fun s hs hr => by
    by_cases e : s + n = i + 1
    · exact ht (hr i (by omega) (by omega))
    · exact h.none_yet s (by omega) hr

/-- The free run before entry `i`, with a free entry `i`, is the free run before `i + 1`. -/
theorem ScanInv.extend {i bc : Nat} {bs : Int} (h : ScanInv heap n i bc bs)
    (hf : heap.IsFree i) : IsRun heap.IsFree (i - bc) (bc + 1) := by
  intro j h1 h2
  have := h.bc_le
  by_cases e : j = i
  · exact e ▸ hf
  · exact h.run j h1 (by omega)

theorem ScanInv.free {i bc : Nat} {bs : Int} (h : ScanInv heap n i bc bs)
    (hf : heap.IsFree i) (hne : bc + 1 < n) :
    ScanInv heap n (i + 1) (bc + 1) (if bs = -1 then (i : Int) else bs) where
  bc_le := by have := h.bc_le; omega
  bs_eq := by
    have h1 := h.bs_eq
    have h2 := h.bc_le
    by_cases e : bc = 0
    · simp [h1, e]
    · have : bs ≠ -1 := by rw [h1, if_neg e]; omega
      rw [if_neg this, h1, if_neg e, if_neg (by omega)]
      omega
  run := by
    have e : i + 1 - (bc + 1) = i - bc := by omega
    rw [e]
    exact h.extend hf
  maximal := by
    have e : i + 1 - (bc + 1) = i - bc := by omega
    rw [e]
    exact h.maximal
  none_yet := fun s hs hr => by
    have hle := h.bc_le
    by_cases e : s + n ≤ i
    · exact h.none_yet s e hr
    · -- such a run ends with entry `i` and is longer than the maximal run there
      rcases h.maximal with h0 | h0
      · omega
      · exact h0 (hr (i - bc - 1) (by omega) (by omega))

/-- What the scan answers: the first run, else the tail run, else no block. -/
def ScanResult (heap : Heap) (n : Nat) (bs : Int) : Prop :=
  (∃ s : Nat, bs = s ∧ FirstRun heap.IsFree heap.table.total n s) ∨
  (¬ HasRun heap.IsFree heap.table.total n ∧
    ∃ s : Nat, bs = s ∧ TailRun heap.IsFree heap.table.total s) ∨
  (¬ HasRun heap.IsFree heap.table.total n ∧ bs = -1 ∧
    ∀ i, i + 1 = heap.table.total → ¬ heap.IsFree i)

theorem ScanInv.finish {bc : Nat} {bs : Int} (h : ScanInv heap n heap.table.total bc bs) :
    ScanResult heap n bs := by
  have hno : ¬ HasRun heap.IsFree heap.table.total n := fun ⟨s, hs, hr⟩ => h.none_yet s hs hr
  have hle := h.bc_le
  by_cases e : bc = 0
  · refine Or.inr (Or.inr ⟨hno, by rw [h.bs_eq, if_pos e], fun i hi hf => ?_⟩)
    rcases h.maximal with h0 | h0
    · omega
    · refine h0 ?_
      have : heap.table.total - bc - 1 = i := by omega
      rw [this]
      exact hf
  · refine Or.inr (Or.inl ⟨hno, heap.table.total - bc, by rw [h.bs_eq, if_neg e], ?_, ?_, ?_⟩)
    · omega
    · have : heap.table.total - (heap.table.total - bc) = bc := by omega
      rw [this]
      exact h.run
    · exact h.maximal

/-- The run found at the `break` is the first one: an earlier one would have ended before. -/
theorem ScanInv.found {i bc : Nat} {bs : Int} (h : ScanInv heap n i bc bs)
    (hi : i < heap.table.total) (hf : heap.IsFree i) (hn : bc + 1 = n) :
    ScanResult heap n (if bs = -1 then (i : Int) else bs) := by
  have hle := h.bc_le
  refine Or.inl ⟨i - bc, ?_, by omega, ?_, fun s hs hr => ?_⟩
  · have h1 := h.bs_eq
    by_cases e : bc = 0
    · simp [h1, e]
    · have : bs ≠ -1 := by rw [h1, if_neg e]; omega
      rw [if_neg this, h1, if_neg e]
  · rw [← hn]
    exact h.extend hf
  · by_contra hlt
    exact h.none_yet s (by omega) hr

theorem startBlockLoop_spec (hn : 0 < n) (left i bc : Nat) (bs : Int)
    (hi : i + left = heap.table.total) (hbc : bc < n) (h : ScanInv heap n i bc bs) :
    ScanResult heap n (startBlockLoop heap.table.entries n left i bc bs) := by
  -- induction over the entries still ahead; `ScanInv` carries the two counters
  induction left generalizing i bc bs with
  | zero =>
    have : i = heap.table.total := by omega
    subst this
    exact h.finish
  | succ left ih =>
    unfold startBlockLoop
    by_cases hf : heapGetEntryType (heap.table.entries i) = entryFree
    · rw [if_neg (by simpa using hf)]
      dsimp only
      split
      · rename_i hbcn
        exact h.found (by omega) hf hbcn
      · exact ih (i + 1) (bc + 1) _ (by omega) (by omega) (h.free hf (by omega))
    · rw [if_pos hf]
      exact ih (i + 1) 0 (-1) (by omega) hn (h.taken hn hf)

/-- **The scan**, for at least one block. -/
theorem heapGetStartBlock_spec (heap : Heap) {n : Nat} (hn : 0 < n) :
    (∃ s : Nat, heapGetStartBlock heap n = s ∧ FirstRun heap.IsFree heap.table.total n s) ∨
    (¬ HasRun heap.IsFree heap.table.total n ∧
      ∃ s : Nat, heapGetStartBlock heap n = s ∧ TailRun heap.IsFree heap.table.total s) ∨
    (¬ HasRun heap.IsFree heap.table.total n ∧ heapGetStartBlock heap n = -ENOMEM ∧
      ∀ i, i + 1 = heap.table.total → ¬ heap.IsFree i) := by
  have h0 : ScanInv heap n 0 0 (-1) :=
    ⟨Nat.le_refl 0, by simp, fun j h1 h2 => by omega, Or.inl rfl, fun s hs => by omega⟩
  have h := startBlockLoop_spec hn heap.table.total 0 0 (-1) (by omega) hn h0
  unfold heapGetStartBlock
  dsimp only
  rcases h with ⟨s, e, hs⟩ | ⟨hno, s, e, hs⟩ | ⟨hno, e, hs⟩
  · exact Or.inl ⟨s, by rw [e, if_neg (by omega)], hs⟩
  · exact Or.inr (Or.inl ⟨hno, s, by rw [e, if_neg (by omega)], hs⟩)
  · exact Or.inr (Or.inr ⟨hno, by rw [e, if_pos rfl], hs⟩)

end Scan

/-! ## 3. Chains -/

/-- The entry of the `k`-th block of a chain of `n` blocks. -/
def chainEntry (n k : Nat) : UInt8 :=
  let entry := if k = 0 then entryTaken ||| blockIsFirst else entryTaken
  if k + 1 < n then entry ||| blockHasNext else entry

/-- The entries of the extent are one chain. -/
def HeapTable.Chain (t : HeapTable) (a : Extent) : Prop :=
  ∀ k, k < a.len → t.entries ((a.start + k : Nat) : Int) = chainEntry a.len k

theorem chainEntry_hasNext {n k : Nat} (h : k + 1 < n) : chainEntry n k &&& blockHasNext ≠ 0 := by
  unfold chainEntry
  dsimp only
  rw [if_pos h]
  split <;> decide

theorem chainEntry_last {n k : Nat} (h : ¬ k + 1 < n) : chainEntry n k &&& blockHasNext = 0 := by
  unfold chainEntry
  dsimp only
  rw [if_neg h]
  split <;> decide

theorem chainEntry_type (n k : Nat) : heapGetEntryType (chainEntry n k) = entryTaken := by
  unfold chainEntry heapGetEntryType
  dsimp only
  split <;> split <;> decide

theorem entryTaken_ne_free : entryTaken ≠ entryFree := by decide

/-- A block of a chain is not free. -/
theorem Heap.not_isFree_of_chain {heap : Heap} {a : Extent} (h : heap.table.Chain a) {i : Nat}
    (hi : a.Has i) : ¬ heap.IsFree i := by
  unfold Extent.Has at hi
  have h1 := h (i - a.start) (by omega)
  have e : a.start + (i - a.start) = i := by omega
  rw [e] at h1
  unfold Heap.IsFree
  rw [h1, chainEntry_type]
  exact entryTaken_ne_free

/-- A chain is a matter of the extent's own entries. -/
theorem HeapTable.Chain.congr {t t' : HeapTable} {a : Extent} (h : t.Chain a)
    (he : ∀ i : Nat, a.Has i → t'.entries i = t.entries i) : t'.Chain a := by
  intro k hk
  rw [he (a.start + k) ⟨by omega, by omega⟩]
  exact h k hk

/-- The entries after the marking loop: inside the range the look-ahead value, outside the old. -/
theorem markTakenLoop_entries (endBlock : Int) (left : Nat) (i : Int) (e : UInt8) (t : HeapTable)
    (j : Int) : (markTakenLoop endBlock left i e t).entries j =
      if i ≤ j ∧ j < i + left then
        (if j = i then e
        else if j ≠ endBlock then entryTaken ||| blockHasNext else entryTaken)
      else t.entries j := by
  induction left generalizing i e t with
  | zero =>
    rw [if_neg (by omega)]
    rfl
  | succ left ih =>
    simp only [markTakenLoop]
    rw [ih]
    by_cases h1 : i + 1 ≤ j ∧ j < i + 1 + left
    · have hr : i ≤ j ∧ j < i + ((left + 1 : Nat) : Int) := by omega
      rw [if_pos h1, if_pos hr, if_neg (show ¬ j = i by omega)]
      -- entry `j` was chosen by the iteration before it
      by_cases h2 : j = i + 1
      · rw [if_pos h2]
        by_cases h3 : i ≠ endBlock - 1
        · rw [if_pos h3, if_pos (by omega)]
        · rw [if_neg h3, if_neg (by omega)]
      · rw [if_neg h2]
    · rw [if_neg h1, HeapTable.set_entries]
      by_cases h2 : j = i
      · rw [if_pos h2, if_pos (by omega), if_pos h2]
      · rw [if_neg h2, if_neg (by omega)]

/-- **Marking writes one chain** and touches no other entry. -/
theorem heapMarkBlocksTaken_entries (heap : Heap) (b n : Nat) (j : Int) :
    (heapMarkBlocksTaken heap b n).table.entries j =
      if (b : Int) ≤ j ∧ j < b + n then chainEntry n (j - b).toNat else heap.table.entries j := by
  unfold heapMarkBlocksTaken
  dsimp only
  rw [markTakenLoop_entries]
  by_cases h : (b : Int) ≤ j ∧ j < b + n
  · rw [if_pos h, if_pos h]
    unfold chainEntry
    dsimp only
    by_cases h1 : j = b
    · rw [if_pos h1, if_pos (show (j - b).toNat = 0 by omega)]
      by_cases h2 : n > 1
      · rw [if_pos h2, if_pos (by omega)]
      · rw [if_neg h2, if_neg (by omega)]
    · rw [if_neg h1, if_neg (show ¬ (j - b).toNat = 0 by omega)]
      by_cases h2 : j ≠ b + n - 1
      · rw [if_pos h2, if_pos (by omega)]
      · rw [if_neg h2, if_neg (by omega)]
  · rw [if_neg h, if_neg h]

theorem heapMarkBlocksTaken_chain (heap : Heap) (b n : Nat) :
    (heapMarkBlocksTaken heap b n).table.Chain ⟨b, n⟩ := by
  intro k hk
  dsimp only at hk ⊢
  rw [heapMarkBlocksTaken_entries, if_pos (by omega)]
  congr 1
  omega

/-- The entry of a block outside the marked range is the old one. -/
theorem heapMarkBlocksTaken_other (heap : Heap) (b n : Nat) {i : Nat}
    (hi : ¬ (⟨b, n⟩ : Extent).Has i) :
    (heapMarkBlocksTaken heap b n).table.entries i = heap.table.entries i := by
  unfold Extent.Has at hi
  dsimp only at hi
  rw [heapMarkBlocksTaken_entries, if_neg (by omega)]

/-- The releasing loop on a chain: it clears the chain's entries and stops behind its last one. -/
theorem markFreeLoop_entries (left m : Nat) (i : Int) (t : HeapTable) (hm : 0 < m) (hl : m ≤ left)
    (hnext : ∀ k : Nat, k + 1 < m → t.entries (i + k) &&& blockHasNext ≠ 0)
    (hlast : t.entries (i + (m - 1 : Nat)) &&& blockHasNext = 0) (j : Int) :
    (markFreeLoop left i t).entries j =
      if i ≤ j ∧ j < i + m then entryFree else t.entries j := by
  induction left generalizing i m t with
  | zero => omega
  | succ left ih =>
    simp only [markFreeLoop]
    by_cases h1 : m = 1
    · subst h1
      rw [if_pos (by simpa using hlast), HeapTable.set_entries]
      by_cases h2 : j = i
      · rw [if_pos h2, if_pos (by omega)]
      · rw [if_neg h2, if_neg (by omega)]
    · have hn0 := hnext 0 (by omega)
      rw [Int.natCast_zero, Int.add_zero] at hn0
      rw [if_neg hn0]
      have shift : ∀ k : Nat, (t.set i entryFree).entries (i + 1 + k) =
          t.entries (i + (k + 1 : Nat)) := by
        intro k
        rw [HeapTable.set_entries, if_neg (by omega)]
        congr 1
        omega
      rw [ih (m - 1) (i + 1) _ (by omega) (by omega)]
      · rw [HeapTable.set_entries]
        by_cases h2 : i + 1 ≤ j ∧ j < i + 1 + (m - 1 : Nat)
        · rw [if_pos h2, if_pos (by omega)]
        · rw [if_neg h2]
          by_cases h3 : j = i
          · rw [if_pos h3, if_pos (by omega)]
          · rw [if_neg h3, if_neg (by omega)]
      · intro k hk
        rw [shift]
        exact hnext (k + 1) (by omega)
      · rw [shift]
        have e : m - 1 - 1 + 1 = m - 1 := by omega
        rw [e]
        exact hlast

/-- **Releasing a chain clears exactly its entries.** -/
theorem heapMarkBlocksFree_chain {heap : Heap} {a : Extent} (hp : 0 < a.len)
    (hin : a.start + a.len ≤ heap.table.total) (hc : heap.table.Chain a) (j : Int) :
    (heapMarkBlocksFree heap a.start).table.entries j =
      if (a.start : Int) ≤ j ∧ j < a.start + a.len then entryFree else heap.table.entries j := by
  unfold heapMarkBlocksFree
  refine markFreeLoop_entries _ a.len a.start heap.table hp (by omega) (fun k hk => ?_) ?_ j
  · have := hc k (by omega)
    rw [Int.natCast_add] at this
    rw [this]
    exact chainEntry_hasNext hk
  · have := hc (a.len - 1) (by omega)
    rw [Int.natCast_add] at this
    rw [this]
    exact chainEntry_last (by omega)

/-! ## 4. Allocation -/

/-- `ceil(size / 4096)`: the blocks that hold `size` bytes. -/
def blocksFor (size : Nat) : Nat := ceilDiv size 4096

theorem blocksFor_pos {size : Nat} (h : 1 ≤ size) : 0 < blocksFor size := by
  unfold blocksFor ceilDiv
  omega

/-- Up to the last block of the address space the rounding does not wrap. -/
theorem heapAlignValueToUpper_blocks {size : Nat} (h : size ≤ 0xFFFFF000) :
    heapAlignValueToUpper size / 4096 = blocksFor size := by
  unfold heapAlignValueToUpper blocksFor ceilDiv
  split
  · omega
  · rw [u32_natCast_of_lt (by omega)]
    omega

/-- **One allocation**: the first run that is long enough; else the run that ends the table,
    however short; else nothing. -/
theorem heapMalloc_spec {heap : Heap} (hp : heap.Placed) {size : Nat} (h1 : 1 ≤ size)
    (h2 : size ≤ 0xFFFFF000) :
    (∃ s, FirstRun heap.IsFree heap.table.total (blocksFor size) s ∧
      heapMalloc heap size =
        (heap.saddr + s * 4096, heapMarkBlocksTaken heap s (blocksFor size))) ∨
    (¬ HasRun heap.IsFree heap.table.total (blocksFor size) ∧
      ∃ s, TailRun heap.IsFree heap.table.total s ∧
        heapMalloc heap size =
          (heap.saddr + s * 4096, heapMarkBlocksTaken heap s (blocksFor size))) ∨
    (¬ HasRun heap.IsFree heap.table.total (blocksFor size) ∧
      (∀ i, i + 1 = heap.table.total → ¬ heap.IsFree i) ∧ heapMalloc heap size = (0, heap)) := by
  have found : ∀ s : Nat, s ≤ heap.table.total →
      heapGetStartBlock heap (blocksFor size) = s → heapMalloc heap size =
        (heap.saddr + s * 4096, heapMarkBlocksTaken heap s (blocksFor size)) := by
    intro s hs e
    unfold heapMalloc heapMallocBlock
    rw [heapAlignValueToUpper_blocks h2]
    dsimp only
    rw [e, if_neg (by omega), heapBlockToAddress_of_le hp hs]
  rcases heapGetStartBlock_spec heap (blocksFor_pos h1) with
    ⟨s, e, hs⟩ | ⟨hno, s, e, hs⟩ | ⟨hno, e, hs⟩
  · exact Or.inl ⟨s, hs, found s (by have := hs.1; omega) e⟩
  · exact Or.inr (Or.inl ⟨hno, s, hs, found s (by have := hs.1; omega) e⟩)
  · refine Or.inr (Or.inr ⟨hno, hs, ?_⟩)
    unfold heapMalloc heapMallocBlock
    rw [heapAlignValueToUpper_blocks h2]
    dsimp only
    rw [e, if_pos (by decide)]

end PeachKernel
