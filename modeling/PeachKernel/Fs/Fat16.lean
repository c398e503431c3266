/-
  File:      PeachKernel/Fs/Fat16.lean
  Subject:   The reading side of the FAT16 driver `fs/fat/fat16.c`, as the code computes it.

  The driver computes with `int`s; `disk->sector_size` is 512. Every read of clusters and of the FAT
  is preceded by a seek, so its streams are no state; they exist once `fat16_resolve` has succeeded.

  * `fat16Private` -- what `fat16_resolve` keeps of the header for reading;
  * `FatItem`, `FatFileDescriptor` -- directories, items and open files, with their addresses;
  * `fat16GetFatEntry`, `fat16GetClusterForOffset` -- the walk along the FAT;
  * `fat16ReadInternal`, `fat16Read` -- the recursion over clusters, the loop over items.
-/
import PeachKernel.Fs.Fat
import PeachKernel.Status

namespace PeachKernel

open CInt Mem

/-! ## 1. The header -/

/-- `struct fat_h` of `fat16.c`: the fields that the driver reads. -/
structure Fat16Header where
  sectorsPerCluster : UInt8
  reservedSectors : UInt16
  fatCopies : UInt8
  rootDirEntries : UInt16
  sectorsPerFat : UInt16
  signature : UInt8
  deriving DecidableEq

/-- The header, as the 62 bytes at the start of the disk spell it. -/
def fat16ReadHeader (d : Disk) : Fat16Header :=
  let m := bytesMem (readAt d 0 62)
  { sectorsPerCluster := m 13
    reservedSectors := UInt16.ofNat (load16 m 14)
    fatCopies := m 16
    rootDirEntries := UInt16.ofNat (load16 m 17)
    sectorsPerFat := UInt16.ofNat (load16 m 22)
    signature := m 38 }

/-- `root_dir_sector_pos` of `fat16_get_root_directory`. -/
def Fat16Header.rootDirSectorPos (h : Fat16Header) : Nat :=
  h.fatCopies.toNat * h.sectorsPerFat.toNat + h.reservedSectors.toNat

/-- `struct fat_private` of `fat16.c`: the header, and `root_directory.ending_sector_pos`. -/
structure Fat16Private where
  header : Fat16Header
  endingSectorPos : Nat
  deriving DecidableEq

/-- The private data of a disk: the data area starts behind the whole sectors of the root directory,
    whose items have 32 bytes. -/
def fat16Private (d : Disk) : Fat16Private :=
  let header := fat16ReadHeader d
  let rootDirSize := header.rootDirEntries.toNat * 32
  ⟨header, header.rootDirSectorPos + rootDirSize / 512⟩

/-! ## 2. Items -/

/-- `struct fat_directory`: its address, the address of `item` with the bytes that were read there,
    and the other fields. The root directory's structure is a part of `struct fat_private`. -/
structure FatDirectory where
  address : Nat
  item : Nat
  bytes : List UInt8
  total : Int
  sectorPos : Int
  endingSectorPos : Int
  deriving DecidableEq

/-- The union of `struct fat_item`, with its type: `none` is the null pointer. -/
inductive FatItemBody where
  /-- `FAT_ITEM_TYPE_DIRECTORY` -/
  | directory (directory : Option FatDirectory)
  /-- `FAT_ITEM_TYPE_FILE`: the copy of the item, and its address -/
  | file (item : Option (Nat × DirectoryItem))
  deriving DecidableEq

/-- `struct fat_item`. -/
structure FatItem where
  address : Nat
  body : FatItemBody
  deriving DecidableEq

/-- `struct fat_file_descriptor`. -/
structure FatFileDescriptor where
  item : FatItem
  pos : Nat
  deriving DecidableEq

/-- A file just opened: its item, and the copy of the directory item, at their addresses. -/
def FatFileDescriptor.opened (fItem itemCopy : Nat) (item : DirectoryItem) : FatFileDescriptor :=
  ⟨⟨fItem, .file (some (itemCopy, item))⟩, 0⟩

/-! ## 3. Clusters -/

def fat16GetFirstCluster (item : DirectoryItem) : Nat :=
  item.high16BitsFirstCluster ||| item.low16BitsFirstCluster

def fat16ClusterToSector (fs : Fat16Private) (cluster : Int) : Int :=
  i32 (fs.endingSectorPos + (cluster - 2) * fs.header.sectorsPerCluster.toNat)

/-- `fat16_get_fat_entry`: the position of the FAT is multiplied with the offset of the entry. -/
def fat16GetFatEntry (d : Disk) (fs : Fat16Private) (cluster : Int) : Nat :=
  let fatTablePosition := fs.header.reservedSectors.toNat * 512
  load16 (bytesMem (readAt d (i32 (fatTablePosition * (cluster * 2))) 2)) 0

/-- `size_of_cluster_bytes`. -/
def Fat16Private.sizeOfClusterBytes (fs : Fat16Private) : Nat :=
  fs.header.sectorsPerCluster.toNat * 512

/-- The entries at which `fat16_get_cluster_for_offset` gives up. -/
def fat16Stops (entry : Nat) : Bool :=
  entry == 0xFF8 || entry == 0xFFF || entry == 0xFF7 || entry == 0xFF0 || entry == 0xFF6 ||
    entry == 0x00

/-- The loop of `fat16_get_cluster_for_offset`. -/
def clusterLoop (d : Disk) (fs : Fat16Private) : (clustersAhead : Nat) → (clusterToUse : Int) → Int
  | 0, clusterToUse => clusterToUse
  | clustersAhead + 1, clusterToUse =>
    let entry := fat16GetFatEntry d fs clusterToUse
    if fat16Stops entry then - EIO else clusterLoop d fs clustersAhead entry

def fat16GetClusterForOffset (d : Disk) (fs : Fat16Private) (startingCluster offset : Int) : Int :=
  let clustersAhead := offset.tdiv fs.sizeOfClusterBytes
  clusterLoop d fs clustersAhead.toNat startingCluster

/-! ## 4. Reading -/

/-- `fat16_read_internal`: the status and the bytes written to `out`; `none` where the recursion is
    deeper than `fuel`. -/
def fat16ReadInternal (d : Disk) (fs : Fat16Private) :
    (fuel : Nat) → (cluster offset total : Int) → Option (Int × List UInt8)
  | 0, _, _, _ => none
  | fuel + 1, cluster, offset, total =>
    let clusterToUse := fat16GetClusterForOffset d fs cluster offset
    if clusterToUse < 0 then some (clusterToUse, [])
    else
      let offsetFromCluster := offset.tmod fs.sizeOfClusterBytes
      let startingSector := fat16ClusterToSector fs clusterToUse
      let startingPos := i32 (startingSector * 512 + offsetFromCluster)
      let totalToRead :=
        if fs.sizeOfClusterBytes < total then (fs.sizeOfClusterBytes : Int) else total
      let out := readAt d startingPos totalToRead
      let total := total - totalToRead
      if 0 < total then
        (fat16ReadInternal d fs fuel cluster (i32 (offset + totalToRead)) total).map fun r =>
          (r.1, out ++ r.2)
      else some (0, out)

/-- What a read leaves: the value returned, the bytes written to `out`, the descriptor. -/
structure Fat16ReadResult where
  status : Int
  out : List UInt8
  descriptor : FatFileDescriptor
  deriving DecidableEq

/-- The loop of `fat16_read` over the last `left` items: 0, or the error of the item that failed. -/
def fat16ReadItems (d : Disk) (fs : Fat16Private) (fuel cluster size : Nat) :
    (left : Nat) → (offset : Int) → Option (Int × List UInt8)
  | 0, _ => some (0, [])
  | left + 1, offset =>
    match fat16ReadInternal d fs fuel cluster offset (i32 size) with
    | none => none
    | some (res, out) =>
      if res < 0 then some (res, out)
      else
        (fat16ReadItems d fs fuel cluster size left (i32 (offset + size))).map fun r =>
          (r.1, out ++ r.2)

/-- `fat16_read`: `offset` is a local copy of the descriptor's `pos`. `none` where the item is no
    file, or has no copy of the directory item: the function does not look, and follows the
    pointer. -/
def fat16Read (d : Disk) (fs : Fat16Private) (fuel : Nat) (desc : FatFileDescriptor)
    (size nmemb : Nat) : Option Fat16ReadResult :=
  match desc.item.body with
  | .file (some (_, item)) =>
    (fat16ReadItems d fs fuel (fat16GetFirstCluster item) size nmemb (i32 desc.pos)).map fun r =>
      ⟨if r.1 < 0 then r.1 else i32 nmemb, r.2, desc⟩
  | _ => none

end PeachKernel
