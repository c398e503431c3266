/-
  File:      PeachKernel/Heap/Grow.lean
  Subject:   Kernel objects of at most a page: allocating and releasing several of them in a row.

  The kernel's own structures (tasks, page directories, page tables) each fit one block. A function
  that allocates some of them adds allocations to the heap and writes only into their blocks.

  * `freeBlocks` -- the number of free blocks; a request of at most a page succeeds while there is
    one;
  * `Grows` -- `k'` is `k` with new one-block allocations, the memory outside them as before;
  * `kzalloc_grows`, `Grows.trans`, `Grows.store` -- one allocation, several, and writes into them;
  * `kzalloc_one`, `kfree_kzalloc`, `kzalloc_full` -- the count of free blocks alone;
  * `heapInv_freeAll` -- releasing a list of live allocations leaves the others.
-/
import PeachKernel.Heap.Kheap
import Mathlib.Data.Finset.Card

namespace PeachKernel

open CInt Mem

/-! ## 1. Free blocks -/

/-- The number of free blocks. -/
def freeBlocks (heap : Heap) : Nat := ((Finset.range heap.table.total).filter heap.IsFree).card

theorem kernelHeap_freeBlocks (entries : Int → UInt8) :
    freeBlocks (kernelHeap entries) = 25600 := by
  unfold freeBlocks
  have ht : (kernelHeap entries).table.total = 25600 := rfl
  rw [Finset.filter_true_of_mem, Finset.card_range, ht]
  intro i hi
  rw [ht] at hi
  exact kernelHeap_isFree entries (Finset.mem_range.mp hi)

/-- The kernel at the start, with an empty memory. -/
def emptyKernel : Kernel := ⟨kernelHeap fun _ => 0, fun _ => 0⟩

theorem emptyKernel_placed : emptyKernel.heap.Placed := kernelHeap_placed _

theorem emptyKernel_clean : emptyKernel.heap.Clean := (kernelHeap_reachable _).placed_clean.2

theorem emptyKernel_nullStops : emptyKernel.heap.NullStops :=
  ⟨-1, by decide +kernel, by decide, by decide +kernel⟩

theorem emptyKernel_free : freeBlocks emptyKernel.heap = 25600 := kernelHeap_freeBlocks _

theorem emptyKernel_room {n : Nat} (h : n ≤ 25600) : n ≤ freeBlocks emptyKernel.heap := by
  rw [emptyKernel_free]
  exact h

/-- A stretch of free blocks. -/
theorem le_freeBlocks {heap : Heap} {b n : Nat} (hn : b + n ≤ heap.table.total)
    (hf : ∀ i, i < n → heap.IsFree (b + i)) : n ≤ freeBlocks heap := by
  have hcard := Finset.card_le_card_of_injOn (s := Finset.range n)
    (t := (Finset.range heap.table.total).filter heap.IsFree) (fun i => b + i) (fun i hi => by
      have hi := Finset.mem_range.mp hi
      exact Finset.mem_filter.mpr
        ⟨Finset.mem_range.mpr (Nat.lt_of_lt_of_le (Nat.add_lt_add_left hi b) hn), hf i hi⟩)
    (fun _ _ _ _ h => Nat.add_left_cancel h)
  rwa [Finset.card_range] at hcard

/-- With a free block there is a run of one block. -/
theorem hasRun_one {heap : Heap} (h : 0 < freeBlocks heap) :
    HasRun heap.IsFree heap.table.total 1 := by
  obtain ⟨i, hi⟩ := Finset.card_pos.mp h
  obtain ⟨hlt, hfree⟩ := Finset.mem_filter.mp hi
  have hlt := Finset.mem_range.mp hlt
  refine ⟨i, hlt, fun j h1 h2 => ?_⟩
  obtain rfl : j = i := by omega
  exact hfree

/-- Taking a block takes one from the count. -/
theorem freeBlocks_take {heap : Heap} {b : Nat} (hb : b < heap.table.total)
    (hf : heap.IsFree b) : freeBlocks (heapMarkBlocksTaken heap b 1) + 1 = freeBlocks heap := by
  have e : ((Finset.range heap.table.total).filter (heapMarkBlocksTaken heap b 1).IsFree) =
      ((Finset.range heap.table.total).filter heap.IsFree).erase b := by
    ext i
    rw [Finset.mem_erase, Finset.mem_filter, Finset.mem_filter]
    by_cases hi : i = b
    · subst hi
      have hnf : ¬ (heapMarkBlocksTaken heap i 1).IsFree i :=
        Heap.not_isFree_of_chain (heapMarkBlocksTaken_chain heap i 1) ⟨Nat.le_refl i, by
          dsimp only
          omega⟩
      exact ⟨fun h => absurd h.2 hnf, fun h => absurd rfl h.1⟩
    · have he : (heapMarkBlocksTaken heap b 1).IsFree i ↔ heap.IsFree i := by
        unfold Heap.IsFree
        rw [heapMarkBlocksTaken_other heap b 1 fun hh => hi (by
          have hh' : b ≤ i ∧ i < b + 1 := hh
          omega)]
      rw [he]
      exact ⟨fun h => ⟨hi, h⟩, fun h => h.2⟩
  have hmem : b ∈ (Finset.range heap.table.total).filter heap.IsFree :=
    Finset.mem_filter.mpr ⟨Finset.mem_range.mpr hb, hf⟩
  unfold freeBlocks
  rw [heapMarkBlocksTaken_total, e]
  exact Finset.card_erase_add_one hmem

/-! ## 2. Growing -/

/-- `a` lies outside the block at `ptr`. -/
def OffBlock (a ptr : Nat) : Prop := a < ptr ∨ ptr + 4096 ≤ a

/-- **`k'` is `k` with new allocations of one block each**: they are live beside `live` in blocks
    that were free, and the heap table and the memory outside their blocks are as before. -/
structure Grows (k k' : Kernel) (live new : List Allocation) : Prop where
  inv : HeapInv k'.heap (new ++ live)
  small : ∀ x ∈ new, blocksFor x.size = 1
  free : freeBlocks k'.heap + new.length = freeBlocks k.heap
  mem : ∀ a, a < 4294967296 → (∀ x ∈ new, OffBlock a x.ptr) → k'.mem a = k.mem a
  saddr : k'.heap.saddr = k.heap.saddr
  total : k'.heap.table.total = k.heap.table.total
  off : OffLive k.heap k'.heap new
  wasFree : ∀ x ∈ new, ∀ b, (x.extent k'.heap.saddr).Has b → k.heap.IsFree b

theorem blocksFor_one {size : Nat} (h1 : 1 ≤ size) (h2 : size ≤ 4096) : blocksFor size = 1 := by
  unfold blocksFor ceilDiv
  omega

section Growing

variable {k k' k'' : Kernel} {live new new' : List Allocation}

theorem Grows.refl (h : HeapInv k.heap live) : Grows k k live [] where
  inv := h
  small _ hx := absurd hx List.not_mem_nil
  free := rfl
  mem _ _ _ := rfl
  saddr := rfl
  total := rfl
  off _ _ := rfl
  wasFree _ hx := absurd hx List.not_mem_nil

theorem Grows.trans (h : Grows k k' live new) (h' : Grows k' k'' (new ++ live) new') :
    Grows k k'' live (new' ++ new) where
  inv := by
    rw [List.append_assoc]
    exact h'.inv
  small x hx := by
    rcases List.mem_append.mp hx with hx | hx
    · exact h'.small x hx
    · exact h.small x hx
  free := by
    have h1 := h.free
    have h2 := h'.free
    rw [List.length_append]
    omega
  mem a ha hoff :=
    (h'.mem a ha fun x hx => hoff x (List.mem_append_left _ hx)).trans
      (h.mem a ha fun x hx => hoff x (List.mem_append_right _ hx))
  saddr := h'.saddr.trans h.saddr
  total := h'.total.trans h.total
  off j hj := by
    refine (h'.off j fun x hx => hj x (List.mem_append_left _ hx)).trans (h.off j fun x hx => ?_)
    rw [← h'.saddr]
    exact hj x (List.mem_append_right _ hx)
  wasFree x hx b hb := by
    rcases List.mem_append.mp hx with hx | hx
    · -- a block that was free in between is in no allocation made before: its entry is the old one
      have hf := h'.wasFree x hx b hb
      have hnew : ∀ y ∈ new, ¬ (y.extent k'.heap.saddr).HasInt (b : Int) := fun y hy hyb =>
        h.inv.not_isFree (List.mem_append_left _ hy) ((Extent.hasInt_natCast _ _).mp hyb) hf
      unfold Heap.IsFree at hf ⊢
      rwa [← h.off b hnew]
    · rw [h'.saddr] at hb
      exact h.wasFree x hx b hb

/-- A change of memory inside the new blocks. -/
theorem Grows.with_mem (h : Grows k k' live new) {m : Mem}
    (hm : ∀ a, a < 4294967296 → (∀ x ∈ new, OffBlock a x.ptr) → m a = k'.mem a) :
    Grows k ⟨k'.heap, m⟩ live new where
  inv := h.inv
  small := h.small
  free := h.free
  mem a ha hoff := (hm a ha hoff).trans (h.mem a ha hoff)
  saddr := h.saddr
  total := h.total
  off := h.off
  wasFree := h.wasFree

/-- Allocations from before may be left out of account. -/
theorem Grows.forget_live (h : Grows k k' live new) : Grows k k' [] new :=
  { h with inv := h.inv.forget (List.Sublist.append_left (List.nil_sublist _) _) }

/-- What was done to the heap, whatever the memory. -/
theorem Grows.heap_only (h : Grows k k' live new) (m : Mem) :
    Grows ⟨k.heap, m⟩ ⟨k'.heap, m⟩ live new :=
  { h with mem := fun _ _ _ => rfl }

/-- The order of the new ones does not matter. -/
theorem Grows.perm (h : Grows k k' live new) (hp : new'.Perm new) : Grows k k' live new' where
  inv := h.inv.perm (hp.append_right live)
  small x hx := h.small x (hp.subset hx)
  free := by
    rw [hp.length_eq]
    exact h.free
  mem a ha hoff := h.mem a ha fun x hx => hoff x (hp.symm.subset hx)
  saddr := h.saddr
  total := h.total
  off := h.off.perm hp
  wasFree x hx := h.wasFree x (hp.subset hx)

/-- **Releasing the new allocations** gives back the heap of before, where free entries are 0. -/
theorem Grows.release (h : Grows k k' [] new) (hc : k.heap.Clean) :
    new.foldl (fun h a => heapFree h a.ptr) k'.heap = k.heap := by
  have hi := h.inv
  rw [List.append_nil] at hi
  refine freeAll_restores new hi h.off h.saddr h.total fun a ha j hj => ?_
  have hin := hi.inside ha
  have h0 : 0 ≤ j := by
    have := hj.1
    omega
  obtain ⟨b, rfl⟩ := Int.eq_ofNat_of_zero_le h0
  have hb := (Extent.hasInt_natCast _ b).mp hj
  refine hc b ?_ (h.wasFree a ha b hb)
  rw [← h.total]
  have := hb.2
  omega

/-- A word written into one of the new blocks. -/
theorem Grows.store (h : Grows k k' live new) {x : Allocation} (hx : x ∈ new) {d v : Nat}
    (hd : d + 4 ≤ 4096) : Grows k ⟨k'.heap, store32 k'.mem (x.ptr + d) v⟩ live new :=
  h.with_mem fun a _ hoff => store32_other (by
    have := hoff x hx
    unfold OffBlock at this
    omega)

/-- **One allocation of at most a page**, while a block is free. -/
theorem kzalloc_grows (h : HeapInv k.heap live) (hf : 0 < freeBlocks k.heap) (size : Nat)
    (h1 : 1 ≤ size) (h2 : size ≤ 4096) :
    ∃ ptr k', kzalloc k size = (ptr, k') ∧ Grows k k' live [⟨ptr, size⟩] ∧ ptr ≠ 0 ∧
      ptr % 4096 = 0 ∧ ptr + 4096 ≤ 4294967296 ∧
      ∀ a, ptr ≤ a → a < ptr + size → k'.mem a = 0 := by
  have h1' := blocksFor_one h1 h2
  have hp := h.placed
  have hroom : 1 ≤ size ∧ HasRun k.heap.IsFree k.heap.table.total (blocksFor size) :=
    ⟨h1, by rw [h1']; exact hasRun_one hf⟩
  rcases kzalloc_serves hp (by omega) (Or.inl hroom) with ⟨b, hb, e⟩ | ⟨hno, _⟩
  · have hsz := hb.size_le hp
    have hpos := hp.pos
    have hfirst := hb.first
    rw [h1'] at e hsz hfirst
    have hfree := hfirst.2.1 b (Nat.le_refl b) (by omega)
    refine ⟨_, _, e, ⟨?_, ?_, ?_, ?_, rfl, ?_, ?_, ?_⟩, by omega, block_aligned hp b, by omega, ?_⟩
    · have := heapInv_take h hb.pos hb.first.1 hb.first.2.1
      rw [h1'] at this
      exact this
    · intro x hx
      rw [List.mem_singleton.mp hx]
      exact h1'
    · exact freeBlocks_take (by have := hfirst.1; omega) hfree
    · intro a ha hoff
      have := hoff _ List.mem_cons_self
      unfold OffBlock at this
      exact fill_other ha (by omega) (by dsimp only at this; omega)
    · exact heapMarkBlocksTaken_total ..
    · have : OffLive k.heap (heapMarkBlocksTaken k.heap b (blocksFor size))
          [⟨k.heap.saddr + b * 4096, size⟩] := offLive_take fun _ _ => rfl
      rw [h1'] at this
      exact this
    · intro x hx c hc
      rw [List.mem_singleton.mp hx, heapMarkBlocksTaken_saddr, extent_of_addr, h1'] at hc
      exact hfirst.2.1 c hc.1 hc.2
    · exact fun a h3 h4 => fill_inside (by omega) h3 h4
  · exact absurd hroom hno

end Growing

/-- One block taken. -/
theorem kzalloc_one {k : Kernel} (hp : k.heap.Placed) (hf : 0 < freeBlocks k.heap) (size : Nat)
    (h1 : 1 ≤ size) (h2 : size ≤ 4096) :
    ∃ ptr k', kzalloc k size = (ptr, k') ∧ ptr ≠ 0 ∧ k'.heap.Placed ∧
      freeBlocks k'.heap + 1 = freeBlocks k.heap := by
  obtain ⟨ptr, k', e, hg, hne, -⟩ := kzalloc_grows (HeapInv.nil hp) hf size h1 h2
  exact ⟨ptr, k', e, hne, hg.inv.placed, hg.free⟩

/-- No block to take. -/
theorem kzalloc_full {k : Kernel} (hp : k.heap.Placed) (hf : freeBlocks k.heap = 0) {size : Nat}
    (h1 : 1 ≤ size) (h2 : size ≤ 4096) : kzalloc k size = (0, k) := by
  have hnone : ∀ i, i < k.heap.table.total → ¬ k.heap.IsFree i := fun i hi hfree =>
    absurd (Finset.mem_filter.mpr ⟨Finset.mem_range.mpr hi, hfree⟩)
      (Finset.card_eq_zero.mp hf ▸ Finset.notMem_empty i)
  have hserves : k.heap.Serves size := Or.inr fun i hi => hnone i (by omega)
  rcases kzalloc_serves hp (by omega) hserves with ⟨b, hb, -⟩ | ⟨-, e⟩
  · have hfirst := hb.first
    rw [blocksFor_one h1 h2] at hfirst
    exact absurd (hfirst.2.1 b (Nat.le_refl b) (by omega)) (hnone b (by have := hfirst.1; omega))
  · exact e

/-- **Null is the answer exactly without a free block**, and then nothing changes. -/
theorem kzalloc_null_iff {k : Kernel} (hp : k.heap.Placed) {size : Nat} (h1 : 1 ≤ size)
    (h2 : size ≤ 4096) : (kzalloc k size).1 = 0 ↔ freeBlocks k.heap = 0 := by
  constructor
  · intro h0
    by_contra hf
    obtain ⟨ptr, k', e, hne, -⟩ := kzalloc_one hp (Nat.pos_of_ne_zero hf) size h1 h2
    rw [e] at h0
    exact hne h0
  · intro hf
    rw [kzalloc_full hp hf h1 h2]

/-- A request that is granted takes a free block, -/
theorem freeBlocks_pos {k : Kernel} (hp : k.heap.Placed) {size : Nat} (h1 : 1 ≤ size)
    (h2 : size ≤ 4096) (hne : (kzalloc k size).1 ≠ 0) : 0 < freeBlocks k.heap :=
  Nat.pos_of_ne_zero fun hf => hne ((kzalloc_null_iff hp h1 h2).mpr hf)

/-- ... and one that is not changes nothing. -/
theorem kzalloc_null {k : Kernel} (hp : k.heap.Placed) {size : Nat} (h1 : 1 ≤ size)
    (h2 : size ≤ 4096) (h0 : (kzalloc k size).1 = 0) : kzalloc k size = (0, k) :=
  kzalloc_full hp ((kzalloc_null_iff hp h1 h2).mp h0) h1 h2

/-- One block taken and given back. -/
theorem kfree_kzalloc {k : Kernel} (hp : k.heap.Placed) (hf : 0 < freeBlocks k.heap) (size : Nat)
    (h1 : 1 ≤ size) (h2 : size ≤ 4096) :
    (kfree (kzalloc k size).2 (kzalloc k size).1).heap.Placed ∧
      freeBlocks (kfree (kzalloc k size).2 (kzalloc k size).1).heap = freeBlocks k.heap := by
  obtain ⟨ptr, k', e, hg, -⟩ := kzalloc_grows (HeapInv.nil hp) hf size h1 h2
  rw [e]
  have hm : (⟨ptr, size⟩ : Allocation) ∈ [(⟨ptr, size⟩ : Allocation)] ++ [] := List.mem_cons_self
  have ht : (heapFree k'.heap ptr).table.total = k.heap.table.total :=
    (heapFree_total ..).trans hg.total
  refine ⟨hp.congr ht hg.saddr, ?_⟩
  show freeBlocks (heapFree k'.heap ptr) = _
  unfold freeBlocks
  rw [ht]
  congr 1
  refine Finset.filter_congr fun i _ => ?_
  have he := heapFree_entries hg.inv hm (i : Int)
  by_cases hi : (Allocation.extent k'.heap.saddr ⟨ptr, size⟩).HasInt (i : Int)
  · have hw := hg.wasFree _ List.mem_cons_self i ((Extent.hasInt_natCast _ _).mp hi)
    have hfree : (heapFree k'.heap ptr).IsFree i := by
      unfold Heap.IsFree
      rw [he, if_pos hi]
      decide
    exact ⟨fun _ => hw, fun _ => hfree⟩
  · have ho := hg.off (i : Int) fun a ha => by rwa [List.mem_singleton.mp ha]
    unfold Heap.IsFree
    rw [he, if_neg hi, ho]

/-! ## 3. Releasing several -/

/-- **Releasing a list of live allocations** leaves the others represented. -/
theorem heapInv_freeAll (new : List Allocation) :
    ∀ {heap : Heap} {live : List Allocation}, HeapInv heap (new ++ live) →
      HeapInv (new.foldl (fun h a => heapFree h a.ptr) heap) live := by
  induction new with
  | nil =>
    intro heap live h
    exact h
  | cons a new ih =>
    intro heap live h
    have := heapInv_free h (List.mem_append_left _ List.mem_cons_self)
    rw [List.cons_append, List.erase_cons_head] at this
    exact ih this

/-- Two live allocations of one block lie in different pages. -/
theorem HeapInv.offBlock {heap : Heap} {live : List Allocation} (h : HeapInv heap live)
    {x y : Allocation} (hx : x ∈ live) (hy : y ∈ live) (hne : x ≠ y) {d : Nat}
    (hd : d < blocksFor x.size * 4096) (hy1 : blocksFor y.size = 1) :
    OffBlock (x.ptr + d) y.ptr := by
  have hap := h.apart hx hy hne
  have e1 := h.addr x hx
  have e2 := h.addr y hy
  have hlx : (x.extent heap.saddr).len = blocksFor x.size := rfl
  have hly : (y.extent heap.saddr).len = blocksFor y.size := rfl
  unfold Extent.Apart at hap
  unfold OffBlock
  omega

/-- Two blocks that are live beside each other: a byte of the one lies off the other. -/
theorem HeapInv.off_of_ne {heap : Heap} {live : List Allocation} (h : HeapInv heap live)
    {x y : Allocation} (hx : x ∈ live) (hy : y ∈ live) (hne : x ≠ y) (hx1 : blocksFor x.size = 1)
    (hy1 : blocksFor y.size = 1) {a : Nat} (h1 : x.ptr ≤ a) (h2 : a < x.ptr + 4096) :
    OffBlock a y.ptr := by
  have hoff := h.offBlock hx hy hne (d := a - x.ptr) (by rw [hx1]; omega) hy1
  rwa [Nat.add_sub_cancel' h1] at hoff

end PeachKernel
