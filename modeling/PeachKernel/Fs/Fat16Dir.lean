/-
  File:      PeachKernel/Fs/Fat16Dir.lean
  Subject:   Directories in the FAT16 driver: the root directory, subdirectories, items, paths.

  A directory is counted first, from its first sector on over the disk, and then read into a buffer
  of that many items; a search goes through the buffer. Directories and items are values that know
  the addresses of their blocks, and the heap is state. What stands behind a buffer is what memory
  holds there.

  * `fat16GetTotalItemsForDirectory` -- the count; `none` where it does not end within the `fuel`;
  * `fat16GetRootDirectory`, `fat16LoadFatDirectory` -- the buffers; the second one answers with the
    address of a released directory where it fails late (`LoadResult`);
  * `fat16FindItemInDirectory` -- the item of a name;
  * `fat16GetDirectoryEntry` -- the walk along a path; it may use a null pointer, or a directory
    that is released (`BadUse`);
  * `fat16FreeDirectory`, `fat16FatItemFree` -- the releases.
-/
import PeachKernel.Fs.Fat16Links
import PeachKernel.Fs.Names

namespace PeachKernel

open CInt Mem

/-! ## 1. Buffers -/

/-- `directory->item[i]`. -/
def FatDirectory.itemAt (mem : Mem) (directory : FatDirectory) (i : Nat) : DirectoryItem :=
  directoryItemAt (fun j => directory.bytes.getD j (mem (directory.item + j))) (32 * i)

/-! ## 2. Counting -/

/-- The loop of `fat16_get_total_items_for_directory`, from the position of the stream on. -/
def totalItemsLoop (d : Disk) : (fuel : Nat) → (pos i : Int) → Option Int
  | 0, _, _ => none
  | fuel + 1, pos, i =>
    let item := diskstreamerRead d pos 32
    if item.out.headD 0 = 0x00 then some i
    else if item.out.headD 0 = 0xE5 then totalItemsLoop d fuel item.pos i
    else totalItemsLoop d fuel item.pos (i32 (i + 1))

/-- `fat16_get_total_items_for_directory`; the sector is a `uint32_t`. -/
def fat16GetTotalItemsForDirectory (d : Disk) (fuel : Nat) (directoryStartSector : Int) :
    Option Int :=
  let directoryStartPos := i32 (u32 directoryStartSector * 512)
  totalItemsLoop d fuel directoryStartPos 0

/-! ## 3. Loading -/

/-- `fat16_get_root_directory`, into the structure at `address`. The number of whole sectors,
    rounded up, is computed there, too (`total_sectors`); nothing reads it. -/
def fat16GetRootDirectory (k : Kernel) (d : Disk) (fuel : Nat) (header : Fat16Header)
    (address : Nat) : Option (Except Int FatDirectory × Kernel) :=
  let rootDirSectorPos := header.rootDirSectorPos
  let rootDirSize := header.rootDirEntries.toNat * 32
  match fat16GetTotalItemsForDirectory d fuel rootDirSectorPos with
  | none => none
  | some totalItems =>
    match kzalloc k rootDirSize with
    | (dir, k) =>
      if dir = 0 then some (.error (-ENOMEM), k)
      else
        some (.ok
          { address := address
            item := dir
            bytes := readAt d (i32 (rootDirSectorPos * 512)) rootDirSize
            total := totalItems
            sectorPos := rootDirSectorPos
            endingSectorPos := rootDirSectorPos + rootDirSize / 512 }, k)

/-- `fat16_free_directory`. -/
def fat16FreeDirectory (k : Kernel) : (directory : Option FatDirectory) → Kernel
  | none => k
  | some directory =>
    let k := if directory.item ≠ 0 then kfree k directory.item else k
    kfree k directory.address

/-- What `fat16_load_fat_directory` leaves: its local `res`, the pointer that it returns, the
    kernel. -/
structure LoadResult where
  res : Int
  directory : Option FatDirectory
  kernel : Kernel

/-- The exit of `fat16_load_fat_directory`. -/
def LoadResult.exit (res : Int) (directory : Option FatDirectory) (k : Kernel) : LoadResult :=
  ⟨res, directory, if res ≠ 0 then fat16FreeDirectory k directory else k⟩

/-- `fat16_load_fat_directory`. -/
def fat16LoadFatDirectory (k : Kernel) (d : Disk) (fs : Fat16Private) (fuel : Nat)
    (item : DirectoryItem) : Option LoadResult :=
  if item.attr &&& 0x10 = 0 then some (.exit (-EINVARG) none k)
  else
    match kzalloc k 16 with
    | (directory, k) =>
      if directory = 0 then some (.exit (-ENOMEM) none k)
      else
        let cluster := fat16GetFirstCluster item
        let clusterSector := fat16ClusterToSector fs cluster
        match fat16GetTotalItemsForDirectory d fuel clusterSector with
        | none => none
        | some totalItems =>
          let directorySize := i32 (totalItems * 32)
          match kzalloc k (u32 directorySize) with
          | (items, k) =>
            if items = 0 then some (.exit (-ENOMEM) (some ⟨directory, 0, [], totalItems, 0, 0⟩) k)
            else
              (fat16ReadInternal d fs fuel cluster 0 directorySize).map fun r =>
                .exit r.1 (some ⟨directory, items, r.2, totalItems, 0, 0⟩) k

/-- `fat16_clone_directory_item`. -/
def fat16CloneDirectoryItem (k : Kernel) (item : DirectoryItem) (size : Nat) :
    Option (Nat × DirectoryItem) × Kernel :=
  if size < 32 then (none, k)
  else
    match kzalloc k size with
    | (itemCopy, k) => if itemCopy = 0 then (none, k) else (some (itemCopy, item), k)

/-- `fat16_new_fat_item_for_directory_item`. -/
def fat16NewFatItemForDirectoryItem (k : Kernel) (d : Disk) (fs : Fat16Private) (fuel : Nat)
    (item : DirectoryItem) : Option (Option FatItem × Kernel) :=
  match kzalloc k 8 with
  | (fItem, k) =>
    if fItem = 0 then some (none, k)
    else if item.attr &&& 0x10 ≠ 0 then
      (fat16LoadFatDirectory k d fs fuel item).map fun r =>
        (some ⟨fItem, .directory r.directory⟩, r.kernel)
    else
      match fat16CloneDirectoryItem k item 32 with
      | (itemCopy, k) => some (some ⟨fItem, .file itemCopy⟩, k)

/-- `fat16_fat_item_free`. -/
def fat16FatItemFree (k : Kernel) (item : FatItem) : Kernel :=
  let k :=
    match item.body with
    | .directory directory => fat16FreeDirectory k directory
    | .file itemCopy => kfree k ((itemCopy.map Prod.fst).getD 0)
  kfree k item.address

/-! ## 4. Searching -/

/-- The item has the name, without regard to case. -/
def DirectoryItem.named (item : DirectoryItem) (name : List UInt8) : Bool :=
  istrncmp 108 (fat16GetFullRelativeFilename item 108) name == 0

/-- The loop of `fat16_find_item_in_directory`, over the last `left` items from item `i` on; it goes
    on behind an item that it has found. -/
def findItemLoop (d : Disk) (fs : Fat16Private) (fuel : Nat) (directory : FatDirectory)
    (name : List UInt8) :
    (left i : Nat) → (fItem : Option FatItem) → Kernel → Option (Option FatItem × Kernel)
  | 0, _, fItem, k => some (fItem, k)
  | left + 1, i, fItem, k =>
    let item := directory.itemAt k.mem i
    if item.named name then
      match fat16NewFatItemForDirectoryItem k d fs fuel item with
      | none => none
      | some (fItem, k) => findItemLoop d fs fuel directory name left (i + 1) fItem k
    else findItemLoop d fs fuel directory name left (i + 1) fItem k

/-- `fat16_find_item_in_directory`. -/
def fat16FindItemInDirectory (k : Kernel) (d : Disk) (fs : Fat16Private) (fuel : Nat)
    (directory : FatDirectory) (name : List UInt8) : Option (Option FatItem × Kernel) :=
  findItemLoop d fs fuel directory name directory.total.toNat 0 none k

/-- What the code must not do: use a null pointer, or a directory whose block is released. -/
inductive BadUse where
  | nullPointer
  | freed
  deriving DecidableEq

/-- The address lies in a block of the heap that is free. -/
def PointsToFree (heap : Heap) (ptr : Nat) : Prop :=
  heap.saddr ≤ ptr ∧ (ptr - heap.saddr) / 4096 < heap.table.total ∧
    heap.IsFree ((ptr - heap.saddr) / 4096)

instance (heap : Heap) (ptr : Nat) : Decidable (PointsToFree heap ptr) :=
  inferInstanceAs (Decidable (_ ∧ _ ∧ heapGetEntryType _ = _))

/-- The loop of `fat16_get_directory_entry` over the parts that are left. -/
def directoryEntryLoop (d : Disk) (fs : Fat16Private) (fuel : Nat) :
    (nextPart : List (List UInt8)) → (currentItem : Option FatItem) → Kernel →
      Option (Except BadUse (Option FatItem) × Kernel)
  | [], currentItem, k => some (.ok currentItem, k)
  | _ :: _, none, k => some (.error .nullPointer, k)
  | part :: nextPart, some currentItem, k =>
    match currentItem.body with
    | .file _ => some (.ok none, k)
    | .directory none => some (.error .nullPointer, k)
    | .directory (some directory) =>
      if PointsToFree k.heap directory.address then some (.error .freed, k)
      else
        match fat16FindItemInDirectory k d fs fuel directory part with
        | none => none
        | some (tmpItem, k) =>
          directoryEntryLoop d fs fuel nextPart tmpItem (fat16FatItemFree k currentItem)

/-- `fat16_get_directory_entry`: the item (`none`: 0), or the first bad use. -/
def fat16GetDirectoryEntry (k : Kernel) (d : Disk) (fs : Fat16Private) (fuel : Nat)
    (rootDirectory : FatDirectory) (part : List UInt8) (nextPart : List (List UInt8)) :
    Option (Except BadUse (Option FatItem) × Kernel) :=
  match fat16FindItemInDirectory k d fs fuel rootDirectory part with
  | none => none
  | some (none, k) => some (.ok none, k)
  | some (some rootItem, k) => directoryEntryLoop d fs fuel nextPart (some rootItem) k

/-! ## 5. The ways of a load -/

section Ways

variable {k : Kernel} {d : Disk} {fs : Fat16Private} {fuel : Nat} {item : DirectoryItem}
    {r : LoadResult}

/-- **What `fat16_load_fat_directory` does**: it refuses a file; the structure is not granted; the
    buffer is not; or the chain is read, with one status or another. -/
theorem fat16LoadFatDirectory_cases (h : fat16LoadFatDirectory k d fs fuel item = some r) :
    (item.attr &&& 0x10 = 0 ∧ r = ⟨-EINVARG, none, k⟩) ∨
    (item.attr &&& 0x10 ≠ 0 ∧ (kzalloc k 16).1 = 0 ∧ r = ⟨-ENOMEM, none, (kzalloc k 16).2⟩) ∨
    (item.attr &&& 0x10 ≠ 0 ∧ (kzalloc k 16).1 ≠ 0 ∧ ∃ total,
      fat16GetTotalItemsForDirectory d fuel
        (fat16ClusterToSector fs (fat16GetFirstCluster item : Nat)) = some total ∧
      (((kzalloc (kzalloc k 16).2 (u32 (i32 (total * 32)))).1 = 0 ∧
        r = .exit (-ENOMEM) (some ⟨(kzalloc k 16).1, 0, [], total, 0, 0⟩)
          (kzalloc (kzalloc k 16).2 (u32 (i32 (total * 32)))).2) ∨
      ((kzalloc (kzalloc k 16).2 (u32 (i32 (total * 32)))).1 ≠ 0 ∧ ∃ res bytes,
        fat16ReadInternal d fs fuel (fat16GetFirstCluster item : Nat) 0 (i32 (total * 32)) =
          some (res, bytes) ∧
        r = .exit res (some
            ⟨(kzalloc k 16).1, (kzalloc (kzalloc k 16).2 (u32 (i32 (total * 32)))).1, bytes, total,
              0, 0⟩)
          (kzalloc (kzalloc k 16).2 (u32 (i32 (total * 32)))).2))) := by
  unfold fat16LoadFatDirectory at h
  dsimp only at h
  split at h
  · rename_i hattr
    exact Or.inl ⟨hattr, (Option.some.inj h).symm⟩
  rename_i hattr
  split at h
  · rename_i h0
    exact Or.inr (Or.inl ⟨hattr, h0, (Option.some.inj h).symm⟩)
  rename_i h0
  refine Or.inr (Or.inr ⟨hattr, h0, ?_⟩)
  split at h
  · cases h
  rename_i total htotal
  refine ⟨total, htotal, ?_⟩
  split at h
  · rename_i hitems
    exact Or.inl ⟨hitems, (Option.some.inj h).symm⟩
  · rename_i hitems
    obtain ⟨rd, hrd, rfl⟩ := Option.map_eq_some_iff.mp h
    exact Or.inr ⟨hitems, rd.1, rd.2, hrd, rfl⟩

/-- **A load that succeeds** has counted the items and read them along the chain. -/
theorem fat16LoadFatDirectory_ok {dir : FatDirectory} {k' : Kernel}
    (h : fat16LoadFatDirectory k d fs fuel item = some ⟨0, some dir, k'⟩) :
    ∃ total, fat16GetTotalItemsForDirectory d fuel
        (fat16ClusterToSector fs (fat16GetFirstCluster item : Nat)) = some total ∧
        dir.total = total ∧
      fat16ReadInternal d fs fuel (fat16GetFirstCluster item : Nat) 0 (i32 (total * 32)) =
        some (0, dir.bytes) := by
  rcases fat16LoadFatDirectory_cases h with
    ⟨-, e⟩ | ⟨-, -, e⟩ | ⟨-, -, total, htotal, ⟨-, e⟩ | ⟨-, res, bytes, hread, e⟩⟩
  · cases (LoadResult.mk.inj e).2.1
  · cases (LoadResult.mk.inj e).2.1
  · exact absurd (LoadResult.mk.inj e).1 (by decide)
  · obtain ⟨rfl, hdir, -⟩ := LoadResult.mk.inj e
    cases Option.some.inj hdir
    exact ⟨total, htotal, rfl, hread⟩

end Ways

end PeachKernel
