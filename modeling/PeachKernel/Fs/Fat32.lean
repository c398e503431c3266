/-
  File:      PeachKernel/Fs/Fat32.lean
  Subject:   The FAT32 driver `fs/fat/fat32.c`, as the code computes it.

  Every disk access of the driver is a seek followed by a read, so the position of its stream is no
  state. Values of C types narrower than the arithmetic around them keep their width: the fields of
  the header, and the `uint8_t` that `get_next_cluster_id` returns.

  * `fat32Resolve` -- the header and the cluster size, read from the disk;
  * `getClusterDataDiskPos`, `getClusterValue`, `getNextClusterId` -- the data area and the FAT;
  * `getPathDirectoryItem`, `fat32Open` -- the walk along a path;
  * `fat32ReadInternal`, `fat32Read`, `fat32Seek` -- a file handle as a cursor;
  * `fat32Stat`, `fat32Close` -- its size, and its end.

  The loops that follow a cluster chain need not end on a damaged disk; they take a number of turns
  and answer `none` when it does not suffice.
-/
import PeachKernel.Fs.Fat
import PeachKernel.Heap.Kheap
import PeachKernel.Strings

namespace PeachKernel

open CInt Mem

/-! ## 1. The header -/

/-- `struct fat_h`: the fields that the driver reads. -/
structure Fat32Header where
  bytesPerSector : UInt16
  sectorsPerCluster : UInt8
  reservedSectors : UInt16
  fatCopies : UInt8
  bpbFatSz32 : UInt32
  bpbRootClus : UInt32
  bsBootSig : UInt8
  deriving DecidableEq

/-- The header, as the 90 bytes at the start of the disk spell it. -/
def readHeader (d : Disk) : Fat32Header :=
  let m := bytesMem (seekRead d 0 90)
  { bytesPerSector := UInt16.ofNat (load16 m 11)
    sectorsPerCluster := m 13
    reservedSectors := UInt16.ofNat (load16 m 14)
    fatCopies := m 16
    bpbFatSz32 := UInt32.ofNat (load32 m 36)
    bpbRootClus := UInt32.ofNat (load32 m 44)
    bsBootSig := m 66 }

/-- `struct fat_private`: the header, the address of the cluster buffer, the cluster size. -/
structure Fat32Private where
  header : Fat32Header
  buf : Nat
  clusterSizeBytes : Nat
  deriving DecidableEq

/-- The error exit of `fat32_resolve`; `buf` of the private data is still 0. -/
def fat32ResolveErr (k : Kernel) (fatPrivate stream : Nat) : Kernel :=
  let k := if fatPrivate ≠ 0 then kfree k 0 else k
  let k := kfree k fatPrivate
  if stream ≠ 0 then kfree k stream else k

/-- `fat32_resolve`: the status, the private data left on the disk (`none`: 0), and the kernel. The
    private data takes 104 bytes, the stream 8. -/
def fat32Resolve (k : Kernel) (d : Disk) : Int × Option Fat32Private × Kernel :=
  let fatPrivate := kzalloc k 104
  let stream := kzalloc fatPrivate.2 8
  let header := readHeader d
  if stream.1 = 0 then (-ENOMEM, none, fat32ResolveErr stream.2 fatPrivate.1 0)
  else if header.bsBootSig ≠ 0x29 then
    (-EFSNOTUS, none, fat32ResolveErr stream.2 fatPrivate.1 stream.1)
  else
    let clusterSizeBytes := header.bytesPerSector.toNat * header.sectorsPerCluster.toNat
    let buf := kzalloc stream.2 clusterSizeBytes
    if buf.1 = 0 then (-ENOMEM, none, fat32ResolveErr buf.2 fatPrivate.1 stream.1)
    else (0, some ⟨header, buf.1, clusterSizeBytes⟩, buf.2)

/-! ## 2. The data area and the FAT -/

/-- Where cluster `clusterId` lies on the disk, without the width of `uint32_t`. -/
def Fat32Private.dataPos (fs : Fat32Private) (clusterId : Nat) : Int :=
  fs.header.bytesPerSector.toNat * fs.header.reservedSectors.toNat +
    fs.header.bytesPerSector.toNat * fs.header.fatCopies.toNat * fs.header.bpbFatSz32.toNat +
    ((clusterId : Int) - 2) * fs.clusterSizeBytes

def getClusterDataDiskPos (fs : Fat32Private) (clusterId : Nat) : Nat := u32 (fs.dataPos clusterId)

/-- Where the FAT entry of `clusterId` lies on the disk. -/
def Fat32Private.entryPos (fs : Fat32Private) (clusterId : Nat) : Nat :=
  fs.header.bytesPerSector.toNat * fs.header.reservedSectors.toNat + 4 * clusterId

def getClusterValue (d : Disk) (fs : Fat32Private) (clusterId : Nat) : Nat :=
  load32 (bytesMem (seekRead d (u32 (fs.entryPos clusterId)) 4)) 0

/-- `get_next_cluster_id`: the result is a `uint8_t`. -/
def getNextClusterId (d : Disk) (fs : Fat32Private) (clusterId : Nat) : Nat :=
  let value := getClusterValue d fs clusterId
  if value = 0x0FFFFFF8 then 0 else u8 ((value &&& 0x0FFFFFFF : Nat) : Int)

/-! ## 3. Directories -/

/-- The loop of `transform_filename_to_fat`. The parts of a path have at most 107 characters, so
    `src_pos` never wraps. -/
def transformFilenameLoop : (src dest : List UInt8) → (destPos : Nat) → (isDotSeen : Bool) →
    List UInt8
  | [], dest, _, _ => dest
  | c :: src, dest, destPos, isDotSeen =>
    if 11 ≤ destPos then dest
    else if c = 0x0 then dest
    else if c = 0x2E then
      if isDotSeen then transformFilenameLoop src dest destPos isDotSeen
      else transformFilenameLoop src dest 8 true
    else transformFilenameLoop src (dest.set destPos (toupper c)) (destPos + 1) isDotSeen

def transformFilenameToFat (src : List UInt8) : List UInt8 :=
  transformFilenameLoop src (List.replicate 11 0x20) 0 false

/-- The item that `get_path_directory_item` clears at its start. -/
def DirectoryItem.zero : DirectoryItem := ⟨List.replicate 11 0, 0, 0, 0, 0⟩

def getDirectoryItemTargetClusterId (item : DirectoryItem) : Nat :=
  item.high16BitsFirstCluster * 65536 + item.low16BitsFirstCluster

def isDirectoryItemDirectory (item : DirectoryItem) : Bool := item.attr &&& 0x10 != 0

/-- How the loop over the items of one cluster ends. -/
inductive Scan where
  /-- the item looked for -/
  | found (item : DirectoryItem)
  /-- an item whose first byte is 0 -/
  | noMore
  /-- neither, up to the end of the cluster -/
  | full
  deriving DecidableEq

/-- The loop over the items in the buffer, from `itemOffset` on; `left` bounds the turns. -/
def scanItems (buf : Mem) (clusterSize : Nat) (name : List UInt8) : (left itemOffset : Nat) → Scan
  | 0, _ => .full
  | left + 1, itemOffset =>
    if clusterSize ≤ itemOffset then .full
    else
      let item := directoryItemAt buf itemOffset
      if item.filename.headD 0 = 0x0 then .noMore
      else if strncmp 11 item.filename name = 0 then .found item
      else scanItems buf clusterSize name left (itemOffset + 32)

/-- The cluster buffer after a cluster was read into it; behind it stands what memory holds. -/
def clusterBuf (mem : Mem) (d : Disk) (fs : Fat32Private) (clusterId : Nat) : Mem := fun i =>
  (seekRead d (getClusterDataDiskPos fs clusterId) fs.clusterSizeBytes).getD i (mem (fs.buf + i))

/-- One cluster of a directory. -/
def scanCluster (mem : Mem) (d : Disk) (fs : Fat32Private) (name : List UInt8) (clusterId : Nat) :
    Scan :=
  scanItems (clusterBuf mem d fs clusterId) fs.clusterSizeBytes name (fs.clusterSizeBytes + 1) 0

/-- The loop over the clusters of a directory: the item, or `none` where it is not found. -/
def findInDirectory (mem : Mem) (d : Disk) (fs : Fat32Private) (name : List UInt8) :
    (fuel clusterId : Nat) → Option (Option DirectoryItem)
  | 0, _ => none
  | fuel + 1, clusterId =>
    match scanCluster mem d fs name clusterId with
    | .found item => some (some item)
    | .noMore => some none
    | .full =>
      let next := getNextClusterId d fs clusterId
      if next = 0 then some none else findInDirectory mem d fs name fuel next

/-- The loop over the path, from the directory at `clusterId`; `part` and `next` are the path. -/
def pathLoop (mem : Mem) (d : Disk) (fs : Fat32Private) (fuel : Nat) :
    (clusterId : Nat) → (part : List UInt8) → (next : List (List UInt8)) → Option DirectoryItem
  | clusterId, part, next =>
    match findInDirectory mem d fs (transformFilenameToFat part) fuel clusterId with
    | none => none
    | some none => some DirectoryItem.zero
    | some (some item) =>
      match next with
      | [] => some item
      | part :: next =>
        if isDirectoryItemDirectory item then
          pathLoop mem d fs fuel (getDirectoryItemTargetClusterId item) part next
        else some DirectoryItem.zero

def getPathDirectoryItem (mem : Mem) (d : Disk) (fs : Fat32Private) (fuel : Nat)
    (part : List UInt8) (next : List (List UInt8)) : Option DirectoryItem :=
  pathLoop mem d fs fuel fs.header.bpbRootClus.toNat part next

/-! ## 4. File handles -/

/-- `struct fat_private_file_handle`; its `fat_private` is that of the disk. -/
structure FileHandle where
  startingCluster : Nat
  fileSize : Nat
  filePos : Nat
  currentCluster : Nat
  positionInCluster : Nat
  deriving DecidableEq

/-- The handle of a file at its beginning. -/
def FileHandle.ofItem (item : DirectoryItem) : FileHandle where
  startingCluster := getDirectoryItemTargetClusterId item
  fileSize := item.filesize
  filePos := 0
  currentCluster := getDirectoryItemTargetClusterId item
  positionInCluster := 0

/-- `fat32_open`: the address of the handle with the handle, or the error code; and the kernel. -/
def fat32Open (k : Kernel) (d : Disk) (fs : Fat32Private) (fuel : Nat) (part : List UInt8)
    (next : List (List UInt8)) (mode : FileMode) :
    Option (Except Int (Nat × FileHandle) × Kernel) :=
  if mode ≠ .read then some (.error (-ERDONLY), k)
  else
    match getPathDirectoryItem k.mem d fs fuel part next with
    | none => none
    | some item =>
      if item.filename.headD 0 = 0 then some (.error (- EIO), k)
      else
        let fileHandle := kzalloc k 24
        if fileHandle.1 = 0 then some (.error (-ENOMEM), fileHandle.2)
        else some (.ok (fileHandle.1, FileHandle.ofItem item), fileHandle.2)

/-! ## 5. Reading -/

/-- What a read leaves: the value returned, the bytes written to `out`, the handle. -/
structure ReadResult where
  status : Int
  out : List UInt8
  handle : FileHandle
  deriving DecidableEq

/-- `how_many_to_read_from_this_cluster`. -/
def howManyToRead (fs : Fat32Private) (h : FileHandle) (bytesLeftToRead : Nat) : Nat :=
  min (min (u32 ((fs.clusterSizeBytes : Int) - h.positionInCluster))
    (u32 ((h.fileSize : Int) - h.filePos))) bytesLeftToRead

/-- The cursor after `n` bytes: at the end of its cluster it moves to the next one. -/
def FileHandle.advance (d : Disk) (fs : Fat32Private) (h : FileHandle) (n : Nat) : FileHandle :=
  let filePos := u32 ((h.filePos : Int) + n)
  let positionInCluster := u32 ((h.positionInCluster : Int) + n)
  if positionInCluster = fs.clusterSizeBytes then
    { h with
      filePos := filePos
      positionInCluster := 0
      currentCluster := getNextClusterId d fs h.currentCluster }
  else { h with filePos := filePos, positionInCluster := positionInCluster }

/-- `fat32_read_internal` from a turn of its loop on. -/
def fat32ReadInternal (d : Disk) (fs : Fat32Private) :
    (fuel bytesLeftToRead : Nat) → FileHandle → Option ReadResult
  | 0, _, _ => none
  | fuel + 1, bytesLeftToRead, h =>
    let n := howManyToRead fs h bytesLeftToRead
    let clusterDiskPos := getClusterDataDiskPos fs h.currentCluster
    let out := seekRead d (u32 ((clusterDiskPos : Int) + h.positionInCluster)) n
    let bytesLeftToRead := bytesLeftToRead - n
    let h := h.advance d fs n
    if bytesLeftToRead = 0 then some ⟨1, out, h⟩
    else if h.filePos = h.fileSize then some ⟨0, out, h⟩
    else if h.currentCluster = 0 then some ⟨0, out, h⟩
    else (fat32ReadInternal d fs fuel bytesLeftToRead h).map fun r => { r with out := out ++ r.out }

/-- The loop of `fat32_read` over the last `left` items. -/
def readItems (d : Disk) (fs : Fat32Private) (fuel size : Nat) :
    (left : Nat) → (howManyItemsWeReaded : Int) → FileHandle → Option ReadResult
  | 0, howManyItemsWeReaded, h => some ⟨howManyItemsWeReaded, [], h⟩
  | left + 1, howManyItemsWeReaded, h =>
    match fat32ReadInternal d fs fuel size h with
    | none => none
    | some block =>
      let howManyItemsWeReaded := i32 (howManyItemsWeReaded + block.status)
      if block.status = 0 then some { block with status := howManyItemsWeReaded }
      else (readItems d fs fuel size left howManyItemsWeReaded block.handle).map fun r =>
        { r with out := block.out ++ r.out }

def fat32Read (d : Disk) (fs : Fat32Private) (fuel : Nat) (h : FileHandle) (size nmemb : Nat) :
    Option ReadResult :=
  readItems d fs fuel size nmemb 0 h

/-! ## 6. Seeking -/

/-- The loop of `fat32_seek`; it does not touch `file_pos`. -/
def seekLoop (d : Disk) (fs : Fat32Private) : (fuel offset : Nat) → FileHandle → Option FileHandle
  | 0, _, _ => none
  | fuel + 1, offset, h =>
    if 0 < offset then
      let seek := min offset (u32 ((fs.clusterSizeBytes : Int) - h.positionInCluster))
      let positionInCluster := u32 ((h.positionInCluster : Int) + seek)
      let h :=
        if positionInCluster = fs.clusterSizeBytes then
          { h with
            positionInCluster := 0
            currentCluster := getNextClusterId d fs h.currentCluster }
        else { h with positionInCluster := positionInCluster }
      seekLoop d fs fuel (offset - seek) h
    else some h

/-- `case SEEK_CUR` of `fat32_seek`. -/
def fat32SeekCur (d : Disk) (fs : Fat32Private) (fuel : Nat) (h : FileHandle) (offset : Nat) :
    Option (Int × FileHandle) :=
  if u32 ((h.filePos : Int) + offset) < h.fileSize then some (-EINVARG, h)
  else (seekLoop d fs fuel offset h).map fun h => (0, h)

/-- `fat32_seek`: the status and the handle. -/
def fat32Seek (d : Disk) (fs : Fat32Private) (fuel : Nat) (h : FileHandle) (offset seekMode : Nat) :
    Option (Int × FileHandle) :=
  if seekMode = SEEK_SET then
    if offset < h.fileSize then some (-EINVARG, h)
    else
      fat32SeekCur d fs fuel
        { h with currentCluster := h.startingCluster, positionInCluster := 0, filePos := 0 } offset
  else if seekMode = SEEK_END then some (-EUNIMP, h)
  else if seekMode = SEEK_CUR then fat32SeekCur d fs fuel h offset
  else some (-EINVARG, h)

/-! ## 7. The rest of the table of functions -/

def fat32Stat (h : FileHandle) : Int × FileStat := (0, ⟨FILE_STAT_READ_ONLY, h.fileSize⟩)

/-- `fat32_close`, of the handle at an address. -/
def fat32Close (k : Kernel) (fileHandle : Nat) : Int × Kernel := (0, kfree k fileHandle)

end PeachKernel
