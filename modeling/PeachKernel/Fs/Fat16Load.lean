/-
  File:      PeachKernel/Fs/Fat16Load.lean
  Subject:   What `fat16_load_fat_directory` returns, and what the item that is built on it refers
             to.

  The exit of the function releases the directory where the status is not 0, and returns the pointer
  in every case. So a load that fails once it has its structure returns an address that is free.

  * `FatItem.RefersToFree` -- a part of the item lies in a block that is free;
  * `LateFailure` -- the structure is granted, and then the buffer is not, or the chain cannot be
    read;
  * `fat16LoadFatDirectory_right_iff` -- the result is right exactly where no late failure happens,
    and no item refers to free memory exactly there.
-/
import PeachKernel.Fs.Fat16Find
import PeachKernel.Heap.Edges

namespace PeachKernel

open CInt Mem

/-! ## 1. Memory that is granted -/

section Granted

variable {heap : Heap} {k : Kernel} {size ptr : Nat}

/-- **The bytes that are granted** lie in no free block. -/
theorem heapMalloc_region (hp : heap.Placed) (h2 : size ≤ 0xFFFFF000)
    (hne : (heapMalloc heap size).1 ≠ 0) {x : Nat} (hx : x < size) :
    ¬ PointsToFree (heapMalloc heap size).2 ((heapMalloc heap size).1 + x) := by
  -- wherever the blocks are, they are marked
  have hmarked : ∀ {s : Nat}, ¬ PointsToFree (heapMarkBlocksTaken heap s (blocksFor size))
      (heap.saddr + s * 4096 + x) := by
    rintro s ⟨-, -, hfree⟩
    rw [heapMarkBlocksTaken_saddr,
      show heap.saddr + s * 4096 + x - heap.saddr = s * 4096 + x by omega]
      at hfree
    refine Heap.not_isFree_of_chain (heapMarkBlocksTaken_chain heap s _) ⟨?_, ?_⟩ hfree
    · dsimp only
      omega
    · unfold blocksFor ceilDiv
      dsimp only
      omega
  rcases heapMalloc_spec hp (by omega) h2 with ⟨s, -, e⟩ | ⟨-, s, -, e⟩ | ⟨-, -, e⟩
  · rw [e]
    exact hmarked
  · rw [e]
    exact hmarked
  · rw [e] at hne
    exact absurd rfl hne

theorem kzalloc_region (hp : k.heap.Placed) (h2 : size ≤ 0xFFFFF000) (hne : (kzalloc k size).1 ≠ 0)
    {x : Nat} (hx : x < size) :
    ¬ PointsToFree (kzalloc k size).2.heap ((kzalloc k size).1 + x) := by
  rw [kzalloc_ptr] at hne ⊢
  rw [kzalloc_heap]
  exact heapMalloc_region hp h2 hne hx

/-- A request makes nothing free. -/
theorem kzalloc_pointsToFree (h : ¬ PointsToFree k.heap ptr) (size : Nat) :
    ¬ PointsToFree (kzalloc k size).2.heap ptr := by
  rintro ⟨h1, h2, hfree⟩
  rw [kzalloc_heap, heapMalloc_saddr] at h1 h2 hfree
  rw [heapMalloc_total] at h2
  exact heapMalloc_taken (fun hf => h ⟨h1, h2, hf⟩) hfree

/-- **What was granted is free** behind its release. -/
theorem heapFree_pointsToFree (hp : heap.Placed) {b : Nat} (hb : b < heap.table.total) :
    PointsToFree (heapFree heap (heap.saddr + b * 4096)) (heap.saddr + b * 4096) := by
  have hblock := heapAddressToBlock_of_le hp (Nat.le_of_lt hb)
  have hfirst := @heapFree_first heap (heap.saddr + b * 4096) (by rw [hblock]; exact_mod_cast hb)
  rw [hblock] at hfirst
  refine ⟨?_, ?_, ?_⟩
  · rw [heapFree_saddr]
    exact Nat.le_add_right _ _
  · rw [heapFree_saddr, heapFree_total, Nat.add_sub_cancel_left, Nat.mul_div_cancel _ (by decide)]
    exact hb
  · rw [heapFree_saddr, Nat.add_sub_cancel_left, Nat.mul_div_cancel _ (by decide)]
    unfold Heap.IsFree
    rw [hfirst]
    decide

end Granted

/-! ## 2. Results and items -/

/-- **The result of a load is right**: null where it failed, else a directory with all the items
    that were counted. -/
def LoadResult.Right (r : LoadResult) : Prop :=
  (r.res ≠ 0 → r.directory = none) ∧
  (r.res = 0 → ∃ dir, r.directory = some dir ∧ (dir.bytes.length : Int) = 32 * dir.total)

/-- The memory that an item consists of: addresses, with numbers of bytes. -/
def FatItem.regions (fItem : FatItem) : List (Nat × Nat) :=
  (fItem.address, 8) ::
    match fItem.body with
    | .directory none => []
    | .directory (some dir) => [(dir.address, 16), (dir.item, dir.bytes.length)]
    | .file none => []
    | .file (some (itemCopy, _)) => [(itemCopy, 32)]

/-- **The item refers to free memory.** -/
def FatItem.RefersToFree (heap : Heap) (fItem : FatItem) : Prop :=
  ∃ region ∈ fItem.regions, ∃ x < region.2, PointsToFree heap (region.1 + x)

/-- The number of items of the subdirectory, where its structure is granted. -/
def LoadCounts (k : Kernel) (d : Disk) (fs : Fat16Private) (fuel : Nat) (item : DirectoryItem)
    (total : Int) : Prop :=
  item.attr &&& 0x10 ≠ 0 ∧ (kzalloc k 16).1 ≠ 0 ∧
    fat16GetTotalItemsForDirectory d fuel
      (fat16ClusterToSector fs (fat16GetFirstCluster item : Nat)) = some total

/-- **A late failure**: the structure is granted, and then the buffer is not, or the chain cannot be
    read. -/
def LateFailure (k : Kernel) (d : Disk) (fs : Fat16Private) (fuel : Nat) (item : DirectoryItem) :
    Prop :=
  ∃ total, LoadCounts k d fs fuel item total ∧
    ((kzalloc (kzalloc k 16).2 (u32 (i32 (total * 32)))).1 = 0 ∨
      ∃ res bytes, fat16ReadInternal d fs fuel (fat16GetFirstCluster item : Nat) 0
        (i32 (total * 32)) = some (res, bytes) ∧ res ≠ 0)

/-- So many items that their bytes are no `int`. -/
def TooLarge (k : Kernel) (d : Disk) (fs : Fat16Private) (fuel : Nat) (item : DirectoryItem) :
    Prop :=
  ∃ total, LoadCounts k d fs fuel item total ∧ 67108864 ≤ total

section Load

variable {k k' : Kernel} {d : Disk} {fs : Fat16Private} {fuel : Nat} {item : DirectoryItem}
  {r : LoadResult} {fItem : FatItem}

/-- A count is unique, and no more than the positions of the stream. -/
theorem LoadCounts.unique {total total' : Int} (h : LoadCounts k d fs fuel item total)
    (h' : LoadCounts k d fs fuel item total') : total = total' :=
  Option.some.inj (h.2.2.symm.trans h'.2.2)

theorem LoadCounts.bounds {total : Int} (h : LoadCounts k d fs fuel item total) :
    0 ≤ total ∧ total < 134217728 := by
  obtain ⟨m, -, hend, rfl⟩ := totalItems_iff.mp h.2.2
  have hlt := endsAt_lt_wrap hend
  have hle : Nat.count (IsLive d (directoryStart
      (fat16ClusterToSector fs (fat16GetFirstCluster item : Nat)))) m ≤ m := Nat.count_le _
  omega

/-- The exit of a load that failed. -/
theorem exit_failed {res : Int} {directory : Option FatDirectory} (h : res ≠ 0) :
    LoadResult.exit res directory k = ⟨res, directory, fat16FreeDirectory k directory⟩ := by
  unfold LoadResult.exit
  rw [if_pos h]

/-- **The ways of a load**, with what becomes of the structure: it fails before one is granted; it
    fails late, and returns the structure that it has released; it succeeds. -/
theorem load_cases (h : fat16LoadFatDirectory k d fs fuel item = some r) :
    (r.res ≠ 0 ∧ r.directory = none ∧
      (∀ ptr, ¬ PointsToFree k.heap ptr → ¬ PointsToFree r.kernel.heap ptr) ∧
      ∀ total, ¬ LoadCounts k d fs fuel item total) ∨
    (r.res ≠ 0 ∧ LateFailure k d fs fuel item ∧ ∃ dir, r.directory = some dir ∧
      dir.address = (kzalloc k 16).1 ∧ (kzalloc k 16).1 ≠ 0 ∧
      ∃ size, r.kernel = fat16FreeDirectory (kzalloc (kzalloc k 16).2 size).2 (some dir)) ∨
    (r.res = 0 ∧ ¬ LateFailure k d fs fuel item ∧ ∃ total bytes, LoadCounts k d fs fuel item total ∧
      bytes.length = (i32 (total * 32)).toNat ∧
      (kzalloc (kzalloc k 16).2 (u32 (i32 (total * 32)))).1 ≠ 0 ∧
      r.kernel = (kzalloc (kzalloc k 16).2 (u32 (i32 (total * 32)))).2 ∧
      r.directory = some ⟨(kzalloc k 16).1, (kzalloc (kzalloc k 16).2 (u32 (i32 (total * 32)))).1,
        bytes, total, 0, 0⟩) := by
  have hinvarg : -EINVARG ≠ 0 := by decide
  have hnomem : -ENOMEM ≠ 0 := by decide
  rcases fat16LoadFatDirectory_cases h with
    ⟨hattr, rfl⟩ | ⟨-, h0, rfl⟩ |
    ⟨hattr, h0, total, htotal, ⟨hitems, rfl⟩ | ⟨hitems, res, bytes, hread, rfl⟩⟩
  · exact Or.inl ⟨hinvarg, rfl, fun _ hp => hp, fun _ hc => hc.1 hattr⟩
  · exact Or.inl ⟨hnomem, rfl, fun _ hp => kzalloc_pointsToFree hp 16, fun _ hc => hc.2.1 h0⟩
  · have hc : LoadCounts k d fs fuel item total := ⟨hattr, h0, htotal⟩
    refine Or.inr (Or.inl ⟨hnomem, ⟨total, hc, Or.inl hitems⟩, _, rfl, rfl, h0,
      u32 (i32 (total * 32)), ?_⟩)
    rw [exit_failed hnomem]
  · have hc : LoadCounts k d fs fuel item total := ⟨hattr, h0, htotal⟩
    by_cases hres : res = 0
    · subst hres
      refine Or.inr (Or.inr ⟨rfl, ?_, total, bytes, hc, ?_, hitems, rfl, rfl⟩)
      · rintro ⟨total', hc', hlate⟩
        obtain rfl := hc.unique hc'
        rcases hlate with h' | ⟨res, bytes', hread', hres⟩
        · exact hitems h'
        · exact hres (Prod.mk.inj (Option.some.inj (hread'.symm.trans hread))).1
      · rcases fat16ReadInternal_out fuel hread with ⟨-, hlen⟩ | hneg
        · exact hlen
        · exact absurd hneg (lt_irrefl 0)
    · refine Or.inr (Or.inl ⟨hres, ⟨total, hc, Or.inr ⟨res, bytes, hread, hres⟩⟩, _, rfl, rfl, h0,
        u32 (i32 (total * 32)), ?_⟩)
      rw [exit_failed hres]

/-- A load that succeeds does not fail late. -/
theorem not_lateFailure (h : fat16LoadFatDirectory k d fs fuel item = some r) (h0 : r.res = 0) :
    ¬ LateFailure k d fs fuel item := by
  rcases load_cases h with ⟨hres, -⟩ | ⟨hres, -⟩ | ⟨-, hlate, -⟩
  · exact absurd h0 hres
  · exact absurd h0 hres
  · exact hlate

/-- **When the result is right.** -/
theorem loadRight_iff (h : fat16LoadFatDirectory k d fs fuel item = some r) :
    r.Right ↔ ¬ LateFailure k d fs fuel item ∧ ¬ TooLarge k d fs fuel item := by
  unfold LoadResult.Right
  rcases load_cases h with ⟨hres, hdir, -, hnone⟩ | ⟨hres, hlate, dir, hdir, -⟩ |
    ⟨hres, hlate, total, bytes, hc, hlen, -, -, hdir⟩
  · refine ⟨fun _ => ⟨?_, ?_⟩, fun _ => ⟨fun _ => hdir, fun h0 => absurd h0 hres⟩⟩
    · rintro ⟨total, hc, -⟩
      exact hnone total hc
    · rintro ⟨total, hc, -⟩
      exact hnone total hc
  · constructor
    · rintro ⟨hnull, -⟩
      have := hnull hres
      rw [hdir] at this
      cases this
    · exact fun hno => absurd hlate hno.1
  · obtain ⟨h0, hlt⟩ := hc.bounds
    constructor
    · rintro ⟨-, hright⟩
      refine ⟨hlate, ?_⟩
      rintro ⟨total', hc', hlarge⟩
      obtain rfl := hc.unique hc'
      obtain ⟨dir, e, hbytes⟩ := hright hres
      cases Option.some.inj (hdir.symm.trans e)
      -- the bytes are a negative number, so none was read
      have hneg : i32 (total * 32) < 0 := by
        unfold i32
        omega
      dsimp only at hbytes
      omega
    · rintro ⟨-, hsmall⟩
      have hlt' : total < 67108864 := Int.not_le.mp fun hle => hsmall ⟨total, hc, hle⟩
      have hsize : i32 (total * 32) = total * 32 := i32_of_range (by omega) (by omega)
      refine ⟨fun hne => absurd hres hne, fun _ => ⟨_, hdir, ?_⟩⟩
      dsimp only
      rw [hlen, hsize]
      omega

/-- A directory that is released lies in a free block. -/
theorem fat16FreeDirectory_pointsToFree (hp : k.heap.Placed) {dir : FatDirectory} {b : Nat}
    (hb : b < k.heap.table.total) (ha : dir.address = k.heap.saddr + b * 4096) :
    PointsToFree (fat16FreeDirectory k (some dir)).heap dir.address := by
  unfold fat16FreeDirectory
  dsimp only
  rw [ha]
  split
  · have h := heapFree_pointsToFree (hp.free dir.item) (b := b) (by rwa [heapFree_total])
    rwa [heapFree_saddr] at h
  · exact heapFree_pointsToFree hp hb

/-- The buffer that is granted is that of the bytes. -/
theorem buffer_size {size : Int} {n : Nat} (h : n = size.toNat) (hn : 0 < n)
    (hlt : size < 2147483648) : u32 size = n := by
  unfold u32
  omega

/-- The item's own structure. -/
theorem item_taken (hp : k.heap.Placed) (h0 : (kzalloc k 8).1 ≠ 0) :
    ∀ x < 8, ¬ PointsToFree (kzalloc k 8).2.heap ((kzalloc k 8).1 + x) := fun _ hx =>
  kzalloc_region hp (by decide) h0 hx

/-- **An item of a directory** refers to free memory where its load failed late; `ptr` is its
    structure. -/
theorem directoryItem_refersToFree_iff {ptr : Nat} (hp : k.heap.Placed)
    (hself : ∀ x < 8, ¬ PointsToFree k.heap (ptr + x))
    (hr : fat16LoadFatDirectory k d fs fuel item = some r) :
    FatItem.RefersToFree r.kernel.heap ⟨ptr, .directory r.directory⟩ ↔
    LateFailure k d fs fuel item := by
  rcases load_cases hr with
    ⟨-, hdir, hkeep, hnone⟩ | ⟨-, hlate, dir, hdir, haddr, hne, size, hkernel⟩ | ⟨-, hlate, total,
      bytes, hc, hlen, hitems, hkernel, hdir⟩
  · -- no structure
    refine iff_of_false ?_ fun ⟨total, hc, _⟩ => hnone total hc
    rintro ⟨region, hregion, x, hx, hfree⟩
    rw [hdir, FatItem.regions, List.mem_singleton] at hregion
    subst hregion
    exact hkeep _ (hself x hx) hfree
  · -- a structure that is released
    refine iff_of_true ⟨(dir.address, 16), ?_, 0, Nat.succ_pos 15, ?_⟩ hlate
    · rw [hdir, FatItem.regions]
      exact List.mem_cons_of_mem _ List.mem_cons_self
    · rw [kzalloc_ptr] at haddr hne
      obtain ⟨b, hb, -, e⟩ := heapMalloc_start hp (by decide) hne
      rw [hkernel]
      refine fat16FreeDirectory_pointsToFree (kzalloc_placed (kzalloc_placed hp 16) size)
        (b := b) ?_ ?_
      · rwa [kzalloc_heap, heapMalloc_total, kzalloc_heap, heapMalloc_total]
      · rw [kzalloc_heap, heapMalloc_saddr, kzalloc_heap, heapMalloc_saddr, haddr, e]
  · -- a structure and a buffer
    refine iff_of_false ?_ hlate
    rintro ⟨region, hregion, x, hx, hfree⟩
    rw [hkernel] at hfree
    rw [hdir] at hregion
    simp only [FatItem.regions, List.mem_cons, List.not_mem_nil, or_false] at hregion
    rcases hregion with rfl | rfl | rfl
    · exact kzalloc_pointsToFree (kzalloc_pointsToFree (hself x hx) 16) _ hfree
    · exact kzalloc_pointsToFree (kzalloc_region hp (by decide) hc.2.1 hx) _ hfree
    · dsimp only at hx hfree
      have hsize := buffer_size hlen (by omega) (by unfold i32; omega)
      exact kzalloc_region (kzalloc_placed hp 16) (by rw [hsize]; unfold i32 at hlen; omega) hitems
        (by rwa [hsize]) hfree

/-- **An item of a file** refers to its copy, which is granted or null. -/
theorem fileItem_refersToFree {ptr : Nat} (hp : k.heap.Placed)
    (hself : ∀ x < 8, ¬ PointsToFree k.heap (ptr + x)) :
    ¬ FatItem.RefersToFree (fat16CloneDirectoryItem k item 32).2.heap
      ⟨ptr, .file (fat16CloneDirectoryItem k item 32).1⟩ := by
  unfold fat16CloneDirectoryItem
  rw [if_neg (by decide)]
  dsimp only
  split
  · rintro ⟨region, hregion, x, hx, hfree⟩
    rw [FatItem.regions, List.mem_singleton] at hregion
    subst hregion
    exact kzalloc_pointsToFree (hself x hx) 32 hfree
  · rename_i hcopy
    rintro ⟨region, hregion, x, hx, hfree⟩
    simp only [FatItem.regions, List.mem_cons, List.not_mem_nil, or_false] at hregion
    rcases hregion with rfl | rfl
    · exact kzalloc_pointsToFree (hself x hx) 32 hfree
    · exact kzalloc_region hp (by decide) hcopy hx hfree

/-- **The items that are built**: one of their parts is free exactly where the load failed late. -/
theorem refersToFree_iff (hp : k.heap.Placed)
    (h : fat16NewFatItemForDirectoryItem k d fs fuel item = some (some fItem, k')) :
    fItem.RefersToFree k'.heap ↔ LateFailure (kzalloc k 8).2 d fs fuel item := by
  have hp₁ := kzalloc_placed hp 8
  rcases fat16NewFatItem_cases h with ⟨-, e, -⟩ | ⟨h0, -, r, hr, e, rfl⟩ | ⟨h0, hattr, e, rfl⟩
  · cases e
  · cases Option.some.inj e
    exact directoryItem_refersToFree_iff hp₁ (item_taken hp h0) hr
  · cases Option.some.inj e
    exact iff_of_false (fileItem_refersToFree hp₁ (item_taken hp h0)) fun ⟨_, hc, _⟩ => hc.1 hattr

/-- **The result of a load is right exactly** where the load does not fail late, and the items of
    the subdirectory are not too many for an `int`; no item refers to free memory exactly where its
    load does not fail late. -/
theorem fat16LoadFatDirectory_right_iff (hp : k.heap.Placed) :
    (∀ r, fat16LoadFatDirectory k d fs fuel item = some r →
      (r.Right ↔ ¬ LateFailure k d fs fuel item ∧ ¬ TooLarge k d fs fuel item)) ∧
    (∀ fItem k', fat16NewFatItemForDirectoryItem k d fs fuel item = some (some fItem, k') →
      (¬ fItem.RefersToFree k'.heap ↔ ¬ LateFailure (kzalloc k 8).2 d fs fuel item)) :=
  ⟨fun _ h => loadRight_iff h, fun _ _ h => not_congr (refersToFree_iff hp h)⟩

end Load

/-! ## 3. Subdirectories -/

/-- A subdirectory of 17 items on the cluster 5, whose entry in the FAT ends the chain. -/
def brokenVolume : Disk := ⟨fun i => if 3072 ≤ i ∧ i < 3616 then 0x41 else 0, fun _ => 0⟩

/-- A subdirectory of one item on the cluster 2. -/
def subVolume : Disk := diskOf [(1536, 0x41)]

/-- The item of a subdirectory. -/
def subItemOn (cluster : Nat) : DirectoryItem :=
  ⟨0x53 :: List.replicate 10 0x20, 0x10, 0, cluster, 0⟩

/-- **A load that is granted its blocks**, for a buffer of at most one. -/
theorem load_granted {k : Kernel} {d : Disk} {fs : Fat16Private} {fuel : Nat} (item : DirectoryItem)
    (total : Int) (size : Nat) {res : Int} {bytes : List UInt8} (hp : k.heap.Placed)
    (hf : 2 ≤ freeBlocks k.heap)
    (hattr : item.attr &&& 0x10 ≠ 0)
    (ht : fat16GetTotalItemsForDirectory d fuel
      (fat16ClusterToSector fs (fat16GetFirstCluster item : Nat)) = some total)
    (hs : u32 (i32 (total * 32)) = size) (h1 : 1 ≤ size) (h2 : size ≤ 4096)
    (hr : fat16ReadInternal d fs fuel (fat16GetFirstCluster item : Nat) 0 (i32 (total * 32)) =
      some (res, bytes)) :
    LoadCounts k d fs fuel item total ∧
    fat16LoadFatDirectory k d fs fuel item =
      some (.exit res
        (some ⟨(kzalloc k 16).1, (kzalloc (kzalloc k 16).2 size).1, bytes, total, 0, 0⟩)
            (kzalloc (kzalloc k 16).2 size).2) ∧
    (kzalloc (kzalloc k 16).2 size).2.heap.Placed ∧
    freeBlocks (kzalloc (kzalloc k 16).2 size).2.heap + 2 = freeBlocks k.heap := by
  obtain ⟨directory, k₁, e₁, hne₁, hp₁, hf₁⟩ := kzalloc_one hp (by omega) 16 (by decide) (by decide)
  obtain ⟨items, k₂, e₂, hne₂, hp₂, hf₂⟩ := kzalloc_one hp₁ (by omega) size h1 h2
  unfold fat16LoadFatDirectory LoadCounts
  rw [if_neg hattr, e₁]
  dsimp only
  rw [if_neg hne₁, ht]
  dsimp only
  rw [hs, e₂]
  dsimp only
  rw [if_neg hne₂, hr]
  exact ⟨⟨hattr, hne₁, rfl⟩, rfl, hp₂, by omega⟩

/-- **The chain of the subdirectory is too short**: the load fails, and returns a directory. -/
theorem fat16LoadFatDirectory_released :
    ¬ ∀ (k : Kernel) (d : Disk) (fs : Fat16Private) (fuel : Nat) (item : DirectoryItem),
    k.heap.Placed → (∀ r, fat16LoadFatDirectory k d fs fuel item = some r → r.Right) ∧
    (∀ fItem k', fat16NewFatItemForDirectoryItem k d fs fuel item = some (some fItem, k') →
      ¬ fItem.RefersToFree k'.heap) := by
  intro h
  have hread : ∃ bytes, fat16ReadInternal brokenVolume rootFs 18 (5 : Nat) 0 544 =
      some (- EIO, bytes) := ⟨slice brokenVolume.byte 3072 512, by decide +kernel⟩
  obtain ⟨bytes, hread⟩ := hread
  obtain ⟨hc, hr, -⟩ := load_granted (subItemOn 5) 17 544 emptyKernel_placed
    (emptyKernel_room (by decide)) (by decide) (by decide +kernel) (by decide) (by decide)
      (by decide) hread
  refine ((loadRight_iff hr).mp ((h _ _ _ _ _ (kernelHeap_placed _)).1 _ hr)).1 ⟨17, hc, Or.inr ?_⟩
  exact ⟨- EIO, bytes, hread, by decide⟩

/-- One cluster. -/
theorem fat16LoadFatDirectory_right_iff_sub : ∃ r,
    fat16LoadFatDirectory emptyKernel subVolume rootFs 2 (subItemOn 2) = some r ∧ r.Right := by
  have hread : fat16ReadInternal subVolume rootFs 2 (2 : Nat) 0 32 =
      some (0, slice subVolume.byte 1536 32) := by decide +kernel
  obtain ⟨hc, hr, -⟩ := load_granted (subItemOn 2) 1 32 emptyKernel_placed
    (emptyKernel_room (by decide)) (by decide) (by decide +kernel) (by decide) (by decide)
      (by decide) hread
  refine ⟨_, hr, ((fat16LoadFatDirectory_right_iff (kernelHeap_placed _)).1 _ hr).mpr
    ⟨not_lateFailure hr rfl, ?_⟩⟩
  rintro ⟨total, hc', hlarge⟩
  obtain rfl := hc.unique hc'
  omega

end PeachKernel
