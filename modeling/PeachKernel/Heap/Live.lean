/-
  File:      PeachKernel/Heap/Live.lean
  Subject:   The heap table as a representation of a set of live allocations.

  What the heap is FOR: a set of live allocations, each with its own blocks. The abstract state is a
  list of allocations (pointer and size); the table represents it when `HeapInv` holds: the
  allocations are a layout of the table (`Layout`), and each one's entries are one chain.

  * `heapInv_take` -- marking a free run adds an allocation;
  * `heapInv_free`, `heapFree_entries` -- releasing an allocation clears its entries, no other, and
    the rest of the list is represented as before;
  * `OffLive` -- off the live allocations the table is still a given one (the table before the first
    allocation); both operations keep it, and releasing all of them gives it back
    (`freeAll_restores`);
  * `HeapReachable` -- the heaps the kernel can have: any requests and releases from a created one;
    in all of them a free entry is 0 (`Heap.Clean`).

  `HeapInv` asks nothing of the entries outside the live allocations, so it also describes the
  allocations of ONE owner in a heap that others use.
-/
import PeachKernel.Heap.Spec

namespace PeachKernel

open CInt

/-- One live allocation: the address handed out and the size asked for. -/
structure Allocation where
  ptr : Nat
  size : Nat
  deriving DecidableEq, Repr

/-- The blocks of an allocation in a heap that starts at `saddr`. -/
def Allocation.extent (saddr : Nat) (a : Allocation) : Extent :=
  ⟨(a.ptr - saddr) / 4096, blocksFor a.size⟩

/-- **The table represents the live allocations.** -/
structure HeapInv (heap : Heap) (live : List Allocation) : Prop where
  placed : heap.Placed
  addr : ∀ a ∈ live, a.ptr = heap.saddr + (a.extent heap.saddr).start * 4096
  layout : Layout heap.table.total (live.map (Allocation.extent heap.saddr))
  chain : ∀ a ∈ live, heap.table.Chain (a.extent heap.saddr)

/-- Off the live allocations, `heap`'s entries are those of `base`. -/
def OffLive (base heap : Heap) (live : List Allocation) : Prop :=
  ∀ j : Int, (∀ a ∈ live, ¬ (a.extent heap.saddr).HasInt j) →
    heap.table.entries j = base.table.entries j

section Inv

variable {heap : Heap} {live : List Allocation}

theorem HeapInv.nil (h : heap.Placed) : HeapInv heap [] where
  placed := h
  addr _ ha := absurd ha List.not_mem_nil
  layout := Layout.nil _
  chain _ ha := absurd ha List.not_mem_nil

theorem HeapInv.pos (h : HeapInv heap live) {a : Allocation} (ha : a ∈ live) :
    0 < (a.extent heap.saddr).len :=
  h.layout.pos _ (List.mem_map_of_mem ha)

theorem HeapInv.inside (h : HeapInv heap live) {a : Allocation} (ha : a ∈ live) :
    (a.extent heap.saddr).start + (a.extent heap.saddr).len ≤ heap.table.total :=
  h.layout.inside _ (List.mem_map_of_mem ha)

/-- Different live allocations have different blocks. -/
theorem HeapInv.apart (h : HeapInv heap live) {a b : Allocation} (ha : a ∈ live) (hb : b ∈ live)
    (hne : a ≠ b) : (a.extent heap.saddr).Apart (b.extent heap.saddr) := by
  have hp : live.Pairwise fun x y => (x.extent heap.saddr).Apart (y.extent heap.saddr) :=
    List.pairwise_map.mp h.layout.apart
  have : Std.Symm fun x y : Allocation => (x.extent heap.saddr).Apart (y.extent heap.saddr) :=
    ⟨fun _ _ h => h.symm⟩
  exact hp.forall ha hb hne

theorem HeapInv.nodup (h : HeapInv heap live) : live.Nodup := h.layout.nodup.of_map _

/-- A live allocation is known by its address. -/
theorem HeapInv.eq_of_ptr (h : HeapInv heap live) {a b : Allocation} (ha : a ∈ live) (hb : b ∈ live)
    (e : a.ptr = b.ptr) : a = b := by
  by_contra hne
  have hap := h.apart ha hb hne
  have hpa := h.pos ha
  have hpb := h.pos hb
  have hs : (a.extent heap.saddr).start = (b.extent heap.saddr).start := by
    simp only [Allocation.extent, e]
  unfold Extent.Apart at hap
  omega

/-- No block of a live allocation is free. -/
theorem HeapInv.not_isFree (h : HeapInv heap live) {a : Allocation} (ha : a ∈ live) {i : Nat}
    (hi : (a.extent heap.saddr).Has i) : ¬ heap.IsFree i :=
  Heap.not_isFree_of_chain (h.chain a ha) hi

/-- A free run shares no block with a live allocation. -/
theorem HeapInv.run_apart (h : HeapInv heap live) {s n : Nat} (hn : 0 < n)
    (hr : IsRun heap.IsFree s n) {a : Allocation} (ha : a ∈ live) :
    (⟨s, n⟩ : Extent).Apart (a.extent heap.saddr) :=
  Extent.apart_of_disjoint hn (h.pos ha) fun i hi hai =>
    h.not_isFree ha hai (hr i hi.1 hi.2)

theorem HeapInv.perm (h : HeapInv heap live) {live' : List Allocation} (hp : live'.Perm live) :
    HeapInv heap live' where
  placed := h.placed
  addr a ha := h.addr a (hp.subset ha)
  layout := h.layout.perm (hp.map _)
  chain a ha := h.chain a (hp.subset ha)

/-- Allocations may be left out of account. -/
theorem HeapInv.forget (h : HeapInv heap live) {live' : List Allocation} (hs : live'.Sublist live) :
    HeapInv heap live' where
  placed := h.placed
  addr a ha := h.addr a (hs.subset ha)
  layout := h.layout.sublist (hs.map _)
  chain a ha := h.chain a (hs.subset ha)

theorem OffLive.perm {base : Heap} (h : OffLive base heap live) {live' : List Allocation}
    (hp : live'.Perm live) : OffLive base heap live' :=
  fun j hj => h j fun a ha => hj a (hp.symm.subset ha)

theorem extent_of_addr (saddr s size : Nat) :
    Allocation.extent saddr ⟨saddr + s * 4096, size⟩ = ⟨s, blocksFor size⟩ := by
  simp only [Allocation.extent, Extent.mk.injEq, and_true]
  omega

/-! ## 1. Taking a free run -/

/-- **Marking a free run of the right length adds an allocation.** -/
theorem heapInv_take (h : HeapInv heap live) {s size : Nat} (h1 : 1 ≤ size)
    (hs : s + blocksFor size ≤ heap.table.total) (hr : IsRun heap.IsFree s (blocksFor size)) :
    HeapInv (heapMarkBlocksTaken heap s (blocksFor size))
      (⟨heap.saddr + s * 4096, size⟩ :: live) where
  placed := h.placed.congr (heapMarkBlocksTaken_total ..) rfl
  addr a ha := by
    rcases List.mem_cons.mp ha with rfl | ha
    · simp only [heapMarkBlocksTaken_saddr, extent_of_addr]
    · exact h.addr a ha
  layout := by
    rw [heapMarkBlocksTaken_total, heapMarkBlocksTaken_saddr, List.map_cons, extent_of_addr]
    refine h.layout.cons (blocksFor_pos h1) hs fun e he => ?_
    obtain ⟨a, ha, rfl⟩ := List.mem_map.mp he
    exact h.run_apart (blocksFor_pos h1) hr ha
  chain a ha := by
    rw [heapMarkBlocksTaken_saddr]
    rcases List.mem_cons.mp ha with rfl | ha
    · rw [extent_of_addr]
      exact heapMarkBlocksTaken_chain heap s (blocksFor size)
    · refine (h.chain a ha).congr fun i hi => ?_
      exact heapMarkBlocksTaken_other heap s _
        ((h.run_apart (blocksFor_pos h1) hr ha).symm.not_has hi)

theorem offLive_take {base : Heap} (ho : OffLive base heap live) {s size : Nat} :
    OffLive base (heapMarkBlocksTaken heap s (blocksFor size))
      (⟨heap.saddr + s * 4096, size⟩ :: live) := by
  intro j hj
  have h0 := hj _ List.mem_cons_self
  rw [heapMarkBlocksTaken_saddr, extent_of_addr] at h0
  have h0' : ¬ ((s : Int) ≤ j ∧ j < s + blocksFor size) := h0
  rw [heapMarkBlocksTaken_entries, if_neg h0']
  exact ho j fun a ha => hj a (List.mem_cons_of_mem _ ha)

/-! ## 2. Releasing an allocation -/

/-- **Releasing a live allocation clears exactly its entries.** -/
theorem heapFree_entries (h : HeapInv heap live) {a : Allocation} (ha : a ∈ live) (j : Int) :
    (heapFree heap a.ptr).table.entries j =
      if (a.extent heap.saddr).HasInt j then entryFree else heap.table.entries j := by
  have hin := h.inside ha
  unfold heapFree
  rw [h.addr a ha, heapAddressToBlock_of_le h.placed (by omega)]
  exact heapMarkBlocksFree_chain (h.pos ha) hin (h.chain a ha) j

/-- **The other allocations are represented as before.** -/
theorem heapInv_free (h : HeapInv heap live) {a : Allocation} (ha : a ∈ live) :
    HeapInv (heapFree heap a.ptr) (live.erase a) where
  placed := h.placed.congr (heapFree_total ..) rfl
  addr b hb := h.addr b (List.mem_of_mem_erase hb)
  layout := by
    rw [heapFree_total, heapFree_saddr]
    exact h.layout.sublist (List.erase_sublist.map _)
  chain b hb := by
    obtain ⟨hne, hb⟩ := h.nodup.mem_erase_iff.mp hb
    refine (h.chain b hb).congr fun i hi => ?_
    have hni : ¬ (a.extent heap.saddr).Has i := (h.apart hb ha hne).not_has hi
    rw [heapFree_entries h ha, if_neg (by rwa [Extent.hasInt_natCast])]

/-- Where the base table has free entries under the allocation, `OffLive` is kept. -/
theorem offLive_free {base : Heap} (h : HeapInv heap live) (ho : OffLive base heap live)
    {a : Allocation} (ha : a ∈ live)
    (hb : ∀ j, (a.extent heap.saddr).HasInt j → base.table.entries j = entryFree) :
    OffLive base (heapFree heap a.ptr) (live.erase a) := by
  intro j hj
  rw [heapFree_entries h ha]
  by_cases hja : (a.extent heap.saddr).HasInt j
  · rw [if_pos hja, hb j hja]
  · rw [if_neg hja]
    refine ho j fun b hb => ?_
    by_cases e : b = a
    · exact e ▸ hja
    · exact hj b (h.nodup.mem_erase_iff.mpr ⟨e, hb⟩)

/-- **Releasing all of them gives back the base table**, where it had free entries under them. -/
theorem freeAll_restores {base : Heap} (new : List Allocation) :
    ∀ {heap : Heap}, HeapInv heap new → OffLive base heap new → heap.saddr = base.saddr →
      heap.table.total = base.table.total →
      (∀ a ∈ new, ∀ j, (a.extent heap.saddr).HasInt j → base.table.entries j = entryFree) →
      new.foldl (fun h a => heapFree h a.ptr) heap = base := by
  induction new with
  | nil =>
    intro heap _ ho hs ht _
    have he := fun j => ho j fun a ha => absurd ha List.not_mem_nil
    exact Heap.ext (HeapTable.ext (funext he) ht) hs
  | cons a new ih =>
    intro heap h ho hs ht hb
    have ha : a ∈ a :: new := List.mem_cons_self
    have hi := heapInv_free h ha
    have ho' := offLive_free h ho ha (hb a ha)
    rw [List.erase_cons_head] at hi ho'
    exact ih hi ho' hs ((heapFree_total ..).trans ht) fun b hm => hb b (List.mem_cons_of_mem _ hm)

end Inv

/-! ## 3. The heaps the kernel can have -/

/-- A created heap, after any requests and any releases of any addresses. -/
inductive HeapReachable : Heap → Prop where
  | create {heap₀ heap : Heap} (area : MemArea) {table : HeapTable}
      (hc : heapCreate heap₀ area.ptr area.endp table = (0, heap)) : HeapReachable heap
  | malloc {heap : Heap} (h : HeapReachable heap) (size : Nat) :
      HeapReachable (heapMalloc heap size).2
  | free {heap : Heap} (h : HeapReachable heap) (ptr : Nat) : HeapReachable (heapFree heap ptr)

theorem kernelHeap_reachable (entries : Int → UInt8) : HeapReachable (kernelHeap entries) :=
  .create kheapArea (kheapInit_eq entries)

/-- The entries of free blocks are 0. -/
def Heap.Clean (heap : Heap) : Prop :=
  ∀ b, b < heap.table.total → heap.IsFree b → heap.table.entries b = entryFree

/-- The blocks of the table have the same entries. -/
def SameTable (heap heap' : Heap) : Prop :=
  ∀ b : Nat, b < heap.table.total → heap'.table.entries b = heap.table.entries b

/-- A release leaves an entry alone or clears it. -/
theorem markFreeLoop_entry (left : Nat) : ∀ (i : Int) (t : HeapTable) (j : Int),
    (markFreeLoop left i t).entries j = t.entries j ∨
      (markFreeLoop left i t).entries j = entryFree := by
  induction left with
  | zero => exact fun _ _ _ => Or.inl rfl
  | succ left ih =>
    intro i t j
    have hset : (t.set i entryFree).entries j = t.entries j ∨
        (t.set i entryFree).entries j = entryFree := by
      rw [HeapTable.set_entries]
      by_cases hj : j = i
      · exact Or.inr (if_pos hj)
      · exact Or.inl (if_neg hj)
    unfold markFreeLoop
    dsimp only
    split
    · exact hset
    · rcases ih (i + 1) (t.set i entryFree) j with h | h
      · rw [h]
        exact hset
      · exact Or.inr h

/-- A request marks a chain somewhere, or changes nothing. -/
theorem heapMalloc_heap (heap : Heap) (size : Nat) : (heapMalloc heap size).2 = heap ∨
    ∃ b : Nat, (heapMalloc heap size).2 =
      heapMarkBlocksTaken heap b (heapAlignValueToUpper size / 4096) := by
  unfold heapMalloc heapMallocBlock
  dsimp only
  split
  · exact Or.inl rfl
  · rename_i hs
    refine Or.inr ⟨(heapGetStartBlock heap (heapAlignValueToUpper size / 4096)).toNat, ?_⟩
    rw [Int.toNat_of_nonneg (by omega)]

theorem Heap.Clean.malloc {heap : Heap} (h : heap.Clean) (size : Nat) :
    (heapMalloc heap size).2.Clean := by
  rcases heapMalloc_heap heap size with e | ⟨s, e⟩
  · rw [e]
    exact h
  · rw [e]
    intro b hb hf
    unfold Heap.IsFree at hf
    rw [heapMarkBlocksTaken_entries] at hf ⊢
    by_cases hr : (s : Int) ≤ b ∧ (b : Int) < s + (heapAlignValueToUpper size / 4096 : Nat)
    · rw [if_pos hr, chainEntry_type] at hf
      exact absurd hf (by decide)
    · rw [if_neg hr] at hf ⊢
      exact h b (by rwa [heapMarkBlocksTaken_total] at hb) hf

theorem Heap.Clean.free {heap : Heap} (h : heap.Clean) (ptr : Nat) : (heapFree heap ptr).Clean := by
  intro b hb hf
  rcases markFreeLoop_entry (heap.table.total - heapAddressToBlock heap ptr).toNat
    (heapAddressToBlock heap ptr) heap.table b with e | e
  · have e' : (heapFree heap ptr).table.entries b = heap.table.entries b := e
    unfold Heap.IsFree at hf
    rw [e'] at hf ⊢
    exact h b (by rwa [heapFree_total] at hb) hf
  · exact e

@[simp] theorem heapMalloc_total (heap : Heap) (size : Nat) :
    (heapMalloc heap size).2.table.total = heap.table.total := by
  rcases heapMalloc_heap heap size with e | ⟨s, e⟩
  · rw [e]
  · rw [e, heapMarkBlocksTaken_total]

@[simp] theorem heapMalloc_saddr (heap : Heap) (size : Nat) :
    (heapMalloc heap size).2.saddr = heap.saddr := by
  rcases heapMalloc_heap heap size with e | ⟨s, e⟩
  · rw [e]
  · rw [e, heapMarkBlocksTaken_saddr]

theorem Heap.Placed.malloc {heap : Heap} (h : heap.Placed) (size : Nat) :
    (heapMalloc heap size).2.Placed :=
  h.congr (heapMalloc_total ..) (heapMalloc_saddr ..)

theorem Heap.Placed.free {heap : Heap} (h : heap.Placed) (ptr : Nat) :
    (heapFree heap ptr).Placed :=
  h.congr (heapFree_total ..) rfl

/-- **Every heap the kernel can have is placed and clean.** -/
theorem HeapReachable.placed_clean {heap : Heap} (h : HeapReachable heap) :
    heap.Placed ∧ heap.Clean := by
  induction h with
  | create area hc =>
    obtain ⟨e, hp⟩ := heapCreate_ok area hc
    refine ⟨hp, fun b hb _ => ?_⟩
    rw [e] at hb ⊢
    exact if_pos ⟨by omega, by exact_mod_cast hb⟩
  | malloc _ size ih => exact ⟨ih.1.malloc size, ih.2.malloc size⟩
  | free _ ptr ih => exact ⟨ih.1.free ptr, ih.2.free ptr⟩

end PeachKernel
