/-
  File:      PeachKernel/Fs/Resolve.lean
  Subject:   Probing a disk: `fat16_resolve`, `fat32_resolve`, and `fs_resolve` over both.

  A driver writes itself and its private data into the fields of the disk before it looks at the
  header. The disk never fails a read, so it refuses a disk for its header or for want of memory.

  * `Resolved` -- what a probe leaves: the status, the fields of the disk, the private data, the
    kernel;
  * `fat16Resolve` -- `none` where the count of the root directory does not end;
  * `fsResolve` -- the drivers one after the other, until one of them answers 0.
-/
import PeachKernel.Fs.Fat16Dir

namespace PeachKernel

open CInt Mem

/-! ## 1. The disk -/

/-- The two `struct filesystem` that `fs_static_load` inserts. -/
inductive Driver where
  | fat16
  | fat32
  deriving DecidableEq

/-- The fields of `struct disk` that a driver writes: `filesystem` (`none`: 0) and `fs_private`. -/
structure DiskFields where
  filesystem : Option Driver
  fsPrivate : Nat
  deriving DecidableEq

/-- What a probe leaves; `priv` is the private data that stays. -/
structure Resolved (π : Type) where
  res : Int
  fields : DiskFields
  priv : Option π
  kernel : Kernel

/-! ## 2. FAT16 -/

/-- `diskstreamer_new`: the address of the stream. Where it gets no block, its fields go to address
    0. -/
def diskstreamerNew (k : Kernel) : Nat × Kernel := kzalloc k 8

/-- `diskstreamer_close`. -/
def diskstreamerClose (k : Kernel) (stream : Nat) : Kernel := kfree k stream

/-- `struct fat_private` of `fat16.c`: also the root directory, and the three streams. -/
structure Fat16Mount extends Fat16Private where
  rootDirectory : FatDirectory
  clusterReadStream : Nat
  fatReadStream : Nat
  directoryStream : Nat

/-- The exit of `fat16_resolve` behind an error. -/
def fat16ResolveErr (res : Int) (fatPrivate stream : Nat) (k : Kernel) : Resolved Fat16Mount :=
  let k := if stream ≠ 0 then diskstreamerClose k stream else k
  ⟨res, ⟨some .fat16, 0⟩, none, kfree k fatPrivate⟩

/-- `fat16_resolve`. The private data takes 92 bytes; `fat16_init_private` opens the three
    streams. -/
def fat16Resolve (k : Kernel) (d : Disk) (fuel : Nat) : Option (Resolved Fat16Mount) :=
  let fatPrivate := kzalloc k 92
  let clusterReadStream := diskstreamerNew fatPrivate.2
  let fatReadStream := diskstreamerNew clusterReadStream.2
  let directoryStream := diskstreamerNew fatReadStream.2
  let stream := diskstreamerNew directoryStream.2
  let header := fat16ReadHeader d
  if stream.1 = 0 then some (fat16ResolveErr (-ENOMEM) fatPrivate.1 0 stream.2)
  else if header.signature ≠ 0x29 then
    some (fat16ResolveErr (-EFSNOTUS) fatPrivate.1 stream.1 stream.2)
  else
    match fat16GetRootDirectory stream.2 d fuel header (fatPrivate.1 + 64) with
    | none => none
    | some (.error _, k) => some (fat16ResolveErr (- EIO) fatPrivate.1 stream.1 k)
    | some (.ok rootDirectory, k) =>
      some ⟨0, ⟨some .fat16, fatPrivate.1⟩,
        some ⟨⟨header, rootDirectory.endingSectorPos.toNat⟩, rootDirectory, clusterReadStream.1,
          fatReadStream.1, directoryStream.1⟩, diskstreamerClose k stream.1⟩

/-! ## 3. FAT32, and both -/

/-- `fat32_resolve`, with what it writes into the disk. -/
def fat32ResolveDisk (k : Kernel) (d : Disk) : Resolved Fat32Private :=
  let fatPrivate := kzalloc k 104
  match fat32Resolve k d with
  | (res, priv, k) => ⟨res, ⟨some .fat32, if res < 0 then 0 else fatPrivate.1⟩, priv, k⟩

/-- `filesystem->resolve`: the status, the fields, the kernel. -/
def Driver.resolve (driver : Driver) (k : Kernel) (d : Disk) (fuel : Nat) :
    Option (Int × DiskFields × Kernel) :=
  match driver with
  | .fat16 => (fat16Resolve k d fuel).map fun r => (r.res, r.fields, r.kernel)
  | .fat32 =>
    let r := fat32ResolveDisk k d
    some (r.res, r.fields, r.kernel)

/-- `filesystems`, as `fs_load` leaves it. -/
def filesystems : List Driver := [.fat16, .fat32]

/-- The loop of `fs_resolve`: the driver that takes the disk, what is left in the fields, the
    kernel. -/
def fsResolveLoop (d : Disk) (fuel : Nat) :
    List Driver → DiskFields → Kernel → Option (Option Driver × DiskFields × Kernel)
  | [], fields, k => some (none, fields, k)
  | driver :: rest, _, k =>
    match driver.resolve k d fuel with
    | none => none
    | some (res, fields, k) =>
      if res = 0 then some (some driver, fields, k) else fsResolveLoop d fuel rest fields k

/-- `fs_resolve`. -/
def fsResolve (fields : DiskFields) (k : Kernel) (d : Disk) (fuel : Nat) :
    Option (Option Driver × DiskFields × Kernel) :=
  fsResolveLoop d fuel filesystems fields k

end PeachKernel
