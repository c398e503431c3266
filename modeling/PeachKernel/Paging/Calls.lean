/-
  File:      PeachKernel/Paging/Calls.lean
  Subject:   Any mapping calls between `paging_new_4gb` and `paging_free_4gb`.

  `paging_free_4gb` finds the tables to release in the directory itself. A mapping call writes one
  word of one table, or nothing; the directory page and the chunk lie in blocks of their own, so
  they still name the tables they named at the start, whatever was mapped.

  * `PagingCall`, `runCalls` -- the calls, with 32-bit arguments of any value;
  * `PagingCall.run_frame` -- a call writes into the tables only; `runCalls_directory` -- the
    directory stays;
  * `pagingFree4gb_restores` -- releasing the directory gives back the heap table of before.
-/
import PeachKernel.Paging.Directory

namespace PeachKernel

open CInt Mem

/-! ## 1. Calls -/

/-- A mapping call on a chunk. A count is an `int`, flags are passed on as they are. -/
inductive PagingCall where
  | map (virt phys flags : UInt32)
  | mapRange (virt phys : UInt32) (count : Int) (flags : UInt32)
  | mapTo (virt phys physEnd flags : UInt32)
  | set (virt val : UInt32)

/-- What a call does to memory; `paging_set` is given the directory of the chunk. -/
def PagingCall.run (chunk : Nat) (m : Mem) : PagingCall → Mem
  | .map virt phys flags => (pagingMap m chunk virt.toNat phys.toNat flags.toNat).2
  | .mapRange virt phys count flags =>
    (pagingMapRange chunk flags.toNat count.toNat virt.toNat phys.toNat 0 m).2
  | .mapTo virt phys physEnd flags =>
    (pagingMapTo m chunk virt.toNat phys.toNat physEnd.toNat flags.toNat).2
  | .set virt val => (pagingSet m (load32 m chunk) virt.toNat val.toNat).2

/-- The calls one after the other. -/
def runCalls (chunk : Nat) (calls : List PagingCall) (m : Mem) : Mem :=
  calls.foldl (PagingCall.run chunk) m

/-! ## 2. What they write -/

/-- `m'` is `m` outside the tables of `d`. -/
def TablesOnly (d : Directory) (m m' : Mem) : Prop :=
  ∀ a, (∀ t ∈ d.tables, OffBlock a t) → m' a = m a

/-- Chunk and directory page lie outside the tables. -/
structure Directory.Separate (d : Directory) : Prop where
  chunk : ∀ t ∈ d.tables, ∀ a, d.chunk ≤ a → a < d.chunk + 4 → OffBlock a t
  directory : ∀ t ∈ d.tables, ∀ a, d.directory ≤ a → a < d.directory + 4096 → OffBlock a t

section Frame

variable {m m' : Mem} {d : Directory}

/-- Parts of a directory that are live in a heap are apart. -/
theorem HeapInv.separate {heap : Heap} {live : List Allocation} (h : HeapInv heap live)
    (hsub : ∀ x ∈ d.allocations, x ∈ live) (hnd : d.allocations.Nodup) : d.Separate := by
  have htab : ∀ t ∈ d.tables, tableAlloc t ∈ live := fun t ht =>
    hsub _ (List.mem_append_left _ (List.mem_map_of_mem ht))
  have hdir : tableAlloc d.directory ∈ live := hsub _ (List.mem_append_right _ List.mem_cons_self)
  have hchunk : (⟨d.chunk, 4⟩ : Allocation) ∈ live :=
    hsub _ (List.mem_append_right _ (List.mem_cons_of_mem _ List.mem_cons_self))
  constructor
  · intro t ht a h1 h2
    have hne : (⟨d.chunk, 4⟩ : Allocation) ≠ tableAlloc t := fun e =>
      absurd (show 4 = 4096 from congrArg Allocation.size e) (by decide)
    have h4 : blocksFor 4 = 1 := blocksFor_one (by decide) (by decide)
    exact h.off_of_ne hchunk (htab t ht) hne h4 (tableAlloc_blocks t) h1
      (Nat.lt_trans h2 (Nat.add_lt_add_left (by decide) _))
  · intro t ht a h1 h2
    have hne : tableAlloc d.directory ≠ tableAlloc t := fun e =>
      (List.nodup_append.mp hnd).2.2 _ (List.mem_map_of_mem ht) _ List.mem_cons_self e.symm
    exact h.off_of_ne hdir (htab t ht) hne (tableAlloc_blocks _) (tableAlloc_blocks t) h1 h2

theorem TablesOnly.refl (d : Directory) (m : Mem) : TablesOnly d m m := fun _ _ => rfl

theorem TablesOnly.trans {m'' : Mem} (h : TablesOnly d m m') (h' : TablesOnly d m' m'') :
    TablesOnly d m m'' := fun a ha => (h' a ha).trans (h a ha)

/-- A directory is not reached by a write into its tables. -/
theorem HasDirectory.tablesOnly (hd : HasDirectory m d) (hs : d.Separate) (h : TablesOnly d m m') :
    HasDirectory m' d :=
  hd.congr (fun a h1 h2 => h a fun t ht => hs.chunk t ht a h1 h2)
    (fun a h1 h2 => h a fun t ht => hs.directory t ht a h1 h2)

/-- **One entry**: `paging_set` writes a word of a table, or nothing. -/
theorem pagingSet_frame (hd : HasDirectory m d) {virt : Nat} (hv : virt < 4294967296) (val : Nat) :
    TablesOnly d m (pagingSet m d.directory virt val).2 := by
  by_cases ha : virt % 4096 = 0
  · rw [pagingSet_of_aligned m d.directory val ha]
    have hi : virt / 4096 / 1024 < 1024 := by omega
    have ht : tableOf m d.directory (virt / 4096 / 1024) ∈ d.tables := by
      unfold tableOf
      rw [hd.word _ hi, List.getD_eq_getElem _ _ (by rw [hd.length]; exact hi)]
      exact List.getElem_mem _
    intro a hoff
    have := hoff _ ht
    unfold OffBlock at this
    exact store32_other (by omega)
  · have hna : (!pagingIsAligned virt) = true := by
      unfold pagingIsAligned
      simpa using ha
    unfold pagingSet
    rw [if_pos hna]
    exact TablesOnly.refl d m

theorem pagingMap_frame (hd : HasDirectory m d) {virt : Nat} (hv : virt < 4294967296)
    (phys flags : Nat) : TablesOnly d m (pagingMap m d.chunk virt phys flags).2 := by
  unfold pagingMap
  split
  · exact TablesOnly.refl d m
  · rw [hd.chunk]
    exact pagingSet_frame hd hv _

/-- The loop of `paging_map_range`: induction on the pages still to map. -/
theorem pagingMapRange_frame (hs : d.Separate) (flags count : Nat) :
    ∀ {m : Mem} {virt : Nat} (phys : Nat) (res : Int), HasDirectory m d → virt < 4294967296 →
      TablesOnly d m (pagingMapRange d.chunk flags count virt phys res m).2 := by
  induction count with
  | zero => exact fun _ _ _ _ => TablesOnly.refl d _
  | succ count ih =>
    intro m virt phys res hd hv
    have h1 := pagingMap_frame hd hv phys flags
    unfold pagingMapRange
    dsimp only
    split
    · exact h1
    · exact h1.trans (ih _ _ (hd.tablesOnly hs h1) (u32_lt _))

theorem pagingMapTo_frame (hd : HasDirectory m d) (hs : d.Separate) {virt : Nat}
    (hv : virt < 4294967296) (phys physEnd flags : Nat) :
    TablesOnly d m (pagingMapTo m d.chunk virt phys physEnd flags).2 := by
  by_cases hr : MapRefused virt phys physEnd
  · rw [pagingMapTo_refused m d.chunk _ hr]
    exact TablesOnly.refl d m
  · unfold MapRefused at hr
    unfold pagingMapTo
    rw [if_neg (by omega), if_neg (by omega), if_neg (by omega), if_neg (by omega)]
    exact pagingMapRange_frame hs _ _ _ _ hd hv

theorem PagingCall.run_frame (hd : HasDirectory m d) (hs : d.Separate) (call : PagingCall) :
    TablesOnly d m (call.run d.chunk m) := by
  cases call with
  | map virt phys flags => exact pagingMap_frame hd virt.toNat_lt _ _
  | mapRange virt phys count flags => exact pagingMapRange_frame hs _ _ _ _ hd virt.toNat_lt
  | mapTo virt phys physEnd flags => exact pagingMapTo_frame hd hs virt.toNat_lt _ _ _
  | set virt val =>
    show TablesOnly d m (pagingSet m (load32 m d.chunk) virt.toNat val.toNat).2
    rw [hd.chunk]
    exact pagingSet_frame hd virt.toNat_lt _

/-- **The directory after any calls** is the one before. -/
theorem runCalls_directory (hs : d.Separate) (calls : List PagingCall) :
    ∀ {m : Mem}, HasDirectory m d → HasDirectory (runCalls d.chunk calls m) d := by
  induction calls with
  | nil => exact fun hd => hd
  | cons call calls ih =>
    intro m hd
    exact ih (hd.tablesOnly hs (call.run_frame hd hs))

end Frame

/-! ## 3. The heap table -/

/-- **`paging_new_4gb`, any mapping calls, `paging_free_4gb`**: the heap table is the one before. -/
theorem pagingFree4gb_restores {k : Kernel} (hr : HeapReachable k.heap)
    (hf : 1026 ≤ freeBlocks k.heap) (flags : UInt8) (calls : List PagingCall) :
    (pagingFree4gb ⟨(pagingNew4gb k flags.toNat).2.heap,
      runCalls (pagingNew4gb k flags.toNat).1 calls (pagingNew4gb k flags.toNat).2.mem⟩
      (pagingNew4gb k flags.toNat).1).heap = k.heap := by
  obtain ⟨hp, hc⟩ := hr.placed_clean
  have hfl : flags.toNat < 4096 := by
    have := flags.toNat_lt
    omega
  obtain ⟨k', d, e, -, hg, hd, -⟩ := pagingNew4gb_grows (HeapInv.nil hp) hf hfl
  rw [e]
  dsimp only
  have hs := hg.inv.separate (fun x hx => List.mem_append_left _ hx)
    (List.nodup_append.mp hg.inv.nodup).1
  have hd' := runCalls_directory hs calls hd
  rw [pagingFree4gb_heap (k := ⟨k'.heap, runCalls d.chunk calls k'.mem⟩) hd']
  exact hg.release hc

/-- A page mapped, a range of none, a refused range and an entry that names no page. -/
def someCalls : List PagingCall :=
  [.map 0x400000 0x1000 7, .mapRange 0 0 (-1) 7, .mapTo 1 0 0x2000 7, .set 0x1000 0xFFFFFFFF]

/-- The fresh kernel heap, before its first directory. -/
def freshKernel : Kernel := ⟨kernelHeap fun _ => 0, fun _ => 0⟩

/-- A directory on the fresh kernel heap. -/
theorem pagingFree4gb_restores_kernel :
    (pagingFree4gb ⟨(pagingNew4gb freshKernel (7 : UInt8).toNat).2.heap,
      runCalls (pagingNew4gb freshKernel (7 : UInt8).toNat).1 someCalls
        (pagingNew4gb freshKernel (7 : UInt8).toNat).2.mem⟩
      (pagingNew4gb freshKernel (7 : UInt8).toNat).1).heap = freshKernel.heap := by
  refine pagingFree4gb_restores (kernelHeap_reachable _) ?_ 7 someCalls
  show 1026 ≤ freeBlocks (kernelHeap fun _ => 0)
  rw [kernelHeap_freeBlocks]
  decide

end PeachKernel
