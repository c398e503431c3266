/-
  File:      PeachKernel/Paging/NewDirectory.lean
  Subject:   `paging_new_4gb` with room for a directory, and without.

  With 1026 blocks the answer is a directory that maps every address to itself. Without, the chunk's
  request, the last one, is refused, and the answer is null; but no answer is looked at before that,
  so what was taken is not given back, and the address of the directory is stored where the chunk
  would be, at address 0.

  * `IdentityDirectory` -- a directory that maps every address to itself, with the same flags
    everywhere; `pagingNew4gb_identity` -- so is a new one;
  * `FailsCleanly` -- null, nothing written outside the blocks that were given, the heap table as
    before; `pagingNew4gb_unclean` -- it never is so.
-/
import PeachKernel.Process.MapPages
import PeachKernel.Task.Blocks

namespace PeachKernel

open CInt Mem

/-! ## 1. With room -/

/-- The requests of `paging_new_4gb`: the directory, its tables, the chunk. -/
def directorySizes : List Nat := (4096 :: List.replicate 1024 4096) ++ [4]

/-- **A directory that maps every address to itself**: its tables are 1024 different pages, none of
    them the directory page; directory words and entries have the flags. -/
structure IdentityDirectory (m : Mem) (d : Directory) (flags : Nat) : Prop where
  length : d.tables.length = 1024
  nodup : d.tables.Nodup
  aligned : ∀ t ∈ d.tables, t % 4096 = 0
  apart : d.directory ∉ d.tables
  chunk : load32 m d.chunk = d.directory
  word : ∀ i, i < 1024 →
    load32 m (d.directory + 4 * i) = d.tables.getD i 0 ||| flags ||| pagingIsWriteable
  translate : ∀ v : UInt32, pagingGetPhysicalAddress m d.directory v.toNat = v.toNat
  entry : ∀ v : UInt32,
    pagingGet m d.directory (pagingAlignToLowerPage v.toNat) &&& 0xFFF = flags

section Identity

variable {m : Mem} {d : Directory} {flags : Nat}

/-- Entries that name their own pages. -/
theorem pagingGetPhysicalAddress_self {dir v : Nat} (hf : flags < 4096) (hv : v < 4294967296)
    (he : pte m dir (v / 4096) = (v / 4096 * 4096) ||| flags) :
    pagingGetPhysicalAddress m dir v = v := by
  rw [pagingGetPhysicalAddress_eq, he, (entry_parts (by omega) hf (by omega)).1,
    Nat.div_add_mod' v 4096, u32_natCast_of_lt hv]

end Identity

/-- **A new directory maps every address to itself.** -/
theorem pagingNew4gb_identity {k : Kernel} (hp : k.heap.Placed)
    (hf : 0 ∉ (mallocAll (List.replicate 1026 4096) k.heap).1) (flags : UInt8) :
    ∃ k' d, pagingNew4gb k flags.toNat = (d.chunk, k') ∧ d.chunk ≠ 0 ∧
      IdentityDirectory k'.mem d flags.toNat := by
  have hfl : flags.toNat < 4096 := by
    have := flags.toNat_lt
    omega
  have hroom : 1026 ≤ freeBlocks k.heap := by
    have h := mallocAll_room (List.replicate 1026 4096) hp
      (fun size hs => by rw [List.eq_of_mem_replicate hs]; decide) hf
    rwa [List.length_replicate] at h
  obtain ⟨k', d, e, hne, hg, hlen, hchunk, hw, hid⟩ := pagingNew4gb_words (HeapInv.nil hp) hroom hfl
  have hd : HasDirectory k'.mem d := ⟨hlen, hchunk, fun j hj => by
    obtain ⟨hal, hb⟩ := hg.inv.table_page (j := j) (by rw [hlen]; exact hj)
    rw [hw j (by rw [hlen]; exact hj), page_with_flags hal hfl (by decide) hb]⟩
  have hnd := List.nodup_append.mp (List.nodup_append.mp hg.inv.nodup).1
  refine ⟨k', d, e, hne, hlen, List.Nodup.of_map _ hnd.1, fun t ht => ?_, fun hmem => ?_, hchunk,
    fun i hi => hw i (by rw [hlen]; exact hi), fun v => ?_, fun v => ?_⟩
  · exact (hg.inv.end_lt (List.mem_append_left _ (List.mem_append_left _
      (List.mem_map_of_mem (f := tableAlloc) ht)))).1
  · exact hnd.2.2 _ (List.mem_map_of_mem hmem) _ List.mem_cons_self rfl
  · have hv := v.toNat_lt
    exact pagingGetPhysicalAddress_self hfl hv (hd.pte_identity hid (by omega))
  · have hv := v.toNat_lt
    rw [pagingGet_lower, hd.pte_identity hid (by omega), (entry_parts (by omega) hfl (by omega)).2]

/-- **Requests of at most a page** with a free block each are all granted. -/
theorem mallocAll_enough (sizes : List Nat) : ∀ {heap : Heap}, heap.Placed →
    (∀ size ∈ sizes, 1 ≤ size ∧ size ≤ 4096) → sizes.length ≤ freeBlocks heap →
    0 ∉ (mallocAll sizes heap).1 := by
  induction sizes with
  | nil => exact fun _ _ _ => List.not_mem_nil
  | cons size sizes ih =>
    intro heap hp hs hf
    obtain ⟨h1, h2⟩ := hs size List.mem_cons_self
    rw [List.length_cons] at hf
    obtain ⟨ptr, k', e, hne, -, hfree⟩ :=
      kzalloc_one (k := ⟨heap, fun _ => 0⟩) hp (by dsimp only; omega) size h1 h2
    have eh := kzalloc_heap ⟨heap, fun _ => 0⟩ size
    have ep := kzalloc_ptr ⟨heap, fun _ => 0⟩ size
    rw [e] at eh ep
    dsimp only at eh ep hfree
    rw [mallocAll_cons, ← ep]
    have hrest := ih (hp.malloc size) (fun x hx => hs x (List.mem_cons_of_mem _ hx))
      (by rw [← eh]; omega)
    exact fun hmem => (List.mem_cons.mp hmem).elim (fun h0 => hne h0.symm) hrest

/-- A directory with all flags, on the fresh kernel heap. -/
theorem pagingNew4gb_identity_kernel : ∃ k' d,
    pagingNew4gb freshKernel (7 : UInt8).toNat = (d.chunk, k') ∧ d.chunk ≠ 0 ∧
      IdentityDirectory k'.mem d (7 : UInt8).toNat := by
  have hp : freshKernel.heap.Placed := kernelHeap_placed _
  refine pagingNew4gb_identity hp (mallocAll_enough _ hp (fun size hs => ?_) ?_) 7
  · rw [List.eq_of_mem_replicate hs]
    decide
  · have hfree : freeBlocks freshKernel.heap = 25600 := kernelHeap_freeBlocks _
    rw [List.length_replicate, hfree]
    decide

/-! ## 2. Without -/

/-- **A failure without a trace**, whatever memory holds: the answer is null, nothing is written
    outside the blocks that were given, and the heap table is the one before. -/
def FailsCleanly (heap : Heap) (flags : Nat) : Prop :=
  ∀ m : Mem, (pagingNew4gb ⟨heap, m⟩ flags).1 = 0 ∧
    (∀ a, a < 4294967296 → (∀ ptr ∈ (mallocAll directorySizes heap).1, ptr ≠ 0 → OffBlock a ptr) →
      (pagingNew4gb ⟨heap, m⟩ flags).2.mem a = m a) ∧
    (pagingNew4gb ⟨heap, m⟩ flags).2.heap = heap

section Short

variable {heap : Heap}

/-- With a block missing, the last request is refused. -/
theorem pagingNew4gb_null (hp : heap.Placed) (hf : freeBlocks heap < 1026) (m : Mem) (flags : Nat) :
    (pagingNew4gb ⟨heap, m⟩ flags).1 = 0 := by
  rw [pagingNew4gb_chunk]
  by_contra hne
  have hsmall : ∀ size ∈ 4096 :: List.replicate 1024 4096, 1 ≤ size ∧ size ≤ 4096 := by
    intro size hs
    rcases List.mem_cons.mp hs with rfl | hs
    · decide
    · rw [List.eq_of_mem_replicate hs]
      decide
  have hall := mallocAll_granted _ hp hsmall (by decide) (by decide) hne
  have hroom := mallocAll_room _ hp (fun size hs => ?_) hall
  · rw [List.length_append, List.length_cons, List.length_replicate] at hroom
    exact absurd hroom (by rw [List.length_singleton]; omega)
  · rcases List.mem_append.mp hs with hs | hs
    · exact hsmall size hs
    · rw [List.mem_singleton.mp hs]
      decide

/-- No block is left behind a refused call. -/
theorem pagingNew4gb_full (hp : heap.Placed) (hf : freeBlocks heap < 1026) (m : Mem) (flags : Nat) :
    freeBlocks (pagingNew4gb ⟨heap, m⟩ flags).2.heap = 0 := by
  have hnull := pagingNew4gb_null hp hf m flags
  unfold pagingNew4gb at hnull ⊢
  dsimp only at hnull ⊢
  have hplaced : (directoryLoop (kzalloc ⟨heap, m⟩ 4096).1 flags 1024 0 0
      (kzalloc ⟨heap, m⟩ 4096).2).heap.Placed := by
    rw [directoryLoop_heap, kzalloc_heap]
    exact mallocAll_placed _ (hp.malloc 4096)
  have hfull := (kzalloc_null_iff hplaced (by decide) (by decide)).mp hnull
  rw [kzalloc_full hplaced hfull (by decide) (by decide)]
  exact hfull

/-- The address of the directory is stored at address 0. -/
theorem pagingNew4gb_null_write (hp : heap.Placed) (hf : freeBlocks heap < 1026) (m : Mem)
    (flags : Nat) :
    (pagingNew4gb ⟨heap, m⟩ flags).2.mem 0 = wordByte (heapMalloc heap 4096).1 0 := by
  have hnull := pagingNew4gb_null hp hf m flags
  unfold pagingNew4gb at hnull ⊢
  dsimp only at hnull ⊢
  rw [hnull, kzalloc_ptr]
  exact if_pos ⟨Nat.le_refl 0, by decide⟩

/-- An answer that is a block does not lie at address 0. -/
theorem mallocAll_off_zero (ptrs : List Nat) : ∀ ptr ∈ ptrs, ptr ≠ 0 → OffBlock 0 ptr :=
  fun _ _ h => Or.inl (Nat.pos_of_ne_zero h)

/-- Every call without room writes at address 0, and one that got blocks keeps them. -/
theorem pagingNew4gb_unwinds_nothing (hp : heap.Placed) (hf : freeBlocks heap < 1026)
    (flags : Nat) : (∃ m : Mem, (pagingNew4gb ⟨heap, m⟩ flags).2.mem 0 ≠ m 0) ∧
      (0 < freeBlocks heap → ∀ m : Mem, (pagingNew4gb ⟨heap, m⟩ flags).2.heap ≠ heap) := by
  refine ⟨⟨fun _ => if wordByte (heapMalloc heap 4096).1 0 = 0 then 1 else 0, fun e => ?_⟩,
    fun hpos m e => ?_⟩
  · rw [pagingNew4gb_null_write hp hf] at e
    split at e
    · rename_i h0
      rw [h0] at e
      exact absurd e (by decide)
    · rename_i h0
      exact h0 e
  · have hfull := pagingNew4gb_full hp hf m flags
    rw [e] at hfull
    omega

theorem FailsCleanly.off_zero {flags : Nat} (h : FailsCleanly heap flags) (m : Mem) :
    (pagingNew4gb ⟨heap, m⟩ flags).2.mem 0 = m 0 :=
  (h m).2.1 0 (by decide) (mallocAll_off_zero _)

/-- **Without room no call fails cleanly.** The answer is null. Some memory shows the write at
    address 0; and where a block was free, the heap table is another one, whatever memory holds. -/
theorem pagingNew4gb_unclean (hp : heap.Placed) (hf : freeBlocks heap < 1026) (flags : UInt8) :
    ¬ FailsCleanly heap flags.toNat ∧ ∀ m : Mem, (pagingNew4gb ⟨heap, m⟩ flags.toNat).1 = 0 ∧
      (0 < freeBlocks heap → (pagingNew4gb ⟨heap, m⟩ flags.toNat).2.heap ≠ heap) := by
  obtain ⟨⟨m, hm⟩, hheap⟩ := pagingNew4gb_unwinds_nothing hp hf flags.toNat
  exact ⟨fun h => hm (h.off_zero m),
    fun m => ⟨pagingNew4gb_null hp hf m _, fun hpos => hheap hpos m⟩⟩

end Short

/-- A kernel heap of one block. -/
def oneBlockHeap : Heap := ⟨⟨fun _ => 0, 1⟩, 0x01000000⟩

theorem oneBlockHeap_placed : oneBlockHeap.Placed := ⟨by decide, by decide, by decide, by decide⟩

theorem oneBlockHeap_freeBlocks : freeBlocks oneBlockHeap < 1026 := by
  have hle : freeBlocks oneBlockHeap ≤ (Finset.range 1).card := Finset.card_filter_le ..
  rw [Finset.card_range] at hle
  omega

/-- One block, and flags of a task. -/
theorem pagingNew4gb_unclean_one : ¬ FailsCleanly oneBlockHeap (5 : UInt8).toNat ∧
    ∀ m : Mem, (pagingNew4gb ⟨oneBlockHeap, m⟩ (5 : UInt8).toNat).1 = 0 ∧
      (0 < freeBlocks oneBlockHeap →
        (pagingNew4gb ⟨oneBlockHeap, m⟩ (5 : UInt8).toNat).2.heap ≠ oneBlockHeap) :=
  pagingNew4gb_unclean oneBlockHeap_placed oneBlockHeap_freeBlocks 5

/-- **The directory takes the block, and its address is stored at address 0.** -/
theorem pagingNew4gb_keeps_block : ¬ ∀ (heap : Heap) (flags : UInt8), heap.Placed →
    freeBlocks heap < 1026 → FailsCleanly heap flags.toNat := by
  intro h
  obtain ⟨⟨m, hm⟩, -⟩ := pagingNew4gb_unwinds_nothing oneBlockHeap_placed oneBlockHeap_freeBlocks
    (5 : UInt8).toNat
  exact hm ((h oneBlockHeap 5 oneBlockHeap_placed oneBlockHeap_freeBlocks).off_zero m)

end PeachKernel
