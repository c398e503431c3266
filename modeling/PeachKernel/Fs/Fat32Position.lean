/-
  File:      PeachKernel/Fs/Fat32Position.lean
  Subject:   Where the FAT32 driver sends its stream: the position of a byte of a cluster, and of a
             cluster's entry in the FAT.

  The position is computed as a `uint32_t` and handed to an `int`. Both conversions keep a number
  below 2^31, and no number from there on comes out as itself.

  * `dataSeek`, `entrySeek` -- the positions that `diskstreamer_seek` is given;
  * `exactDataPos`, `exactEntryPos` -- the offsets on the disk, without a width;
  * `Located` -- a position is the offset, and `diskstreamer_read` finds a sector and a place in it;
  * `seekPositions_exact_iff` -- when both are.
-/
import PeachKernel.Fs.Fat32Chain

namespace PeachKernel

open CInt

/-! ## 1. Positions and offsets -/

/-- `diskstreamer_seek(stream, cluster_disk_pos + position_in_cluster)`. -/
def dataSeek (fs : Fat32Private) (clusterId k : Nat) : Int :=
  i32 (u32 ((getClusterDataDiskPos fs clusterId : Int) + k) : Nat)

/-- `diskstreamer_seek(stream, cluster_address)`. -/
def entrySeek (fs : Fat32Private) (clusterId : Nat) : Int := i32 (u32 (fs.entryPos clusterId) : Nat)

/-- Byte `k` of a cluster: behind the reserved sectors, the FATs and the clusters before it. -/
def exactDataPos (fs : Fat32Private) (clusterId k : Nat) : Nat :=
  fs.header.reservedSectors.toNat * fs.header.bytesPerSector.toNat +
    fs.header.fatCopies.toNat * fs.header.bpbFatSz32.toNat * fs.header.bytesPerSector.toNat +
    (clusterId - 2) * fs.clusterSizeBytes + k

/-- The entry of a cluster in the first FAT. -/
def exactEntryPos (fs : Fat32Private) (clusterId : Nat) : Nat :=
  fs.header.reservedSectors.toNat * fs.header.bytesPerSector.toNat + 4 * clusterId

/-- **A position is the offset**, and the sector and the place that are derived from it are numbers
    of the disk. -/
structure Located (pos : Int) (exact : Nat) : Prop where
  eq : pos = exact
  sector : 0 ≤ pos.tdiv 512
  offset : 0 ≤ pos.tmod 512

/-- A data cluster of a volume of at most 2^32 - 1 sectors, with an entry in the FAT. -/
structure VolumeCluster (fs : Fat32Private) (clusterId : Nat) : Prop where
  two_le : 2 ≤ clusterId
  entry : 4 * clusterId + 4 ≤ fs.header.bpbFatSz32.toNat * fs.header.bytesPerSector.toNat
  sectors : exactDataPos fs clusterId fs.clusterSizeBytes ≤
    4294967295 * fs.header.bytesPerSector.toNat

/-! ## 2. Where they agree -/

/-- **The two conversions** keep the numbers below 2^31, and only these. -/
theorem located_iff {exact : Nat} : Located (i32 (u32 (exact : Int) : Nat)) exact ↔
    exact < 2147483648 := by
  constructor
  · rintro ⟨heq, -, -⟩
    have hlt : i32 (u32 (exact : Int) : Nat) < 2147483648 := by
      unfold i32
      omega
    omega
  · intro h
    have e : i32 (u32 (exact : Int) : Nat) = exact := by
      rw [u32_natCast_of_lt (by omega), i32_natCast_of_lt h]
    rw [e]
    exact ⟨rfl, Int.tdiv_nonneg (by omega) (by decide), Int.tmod_nonneg _ (by omega)⟩

/-- The `uint32_t` arithmetic of a data position is that of the offset. -/
theorem dataSeek_eq (fs : Fat32Private) {clusterId : Nat} (hc : 2 ≤ clusterId) (k : Nat) :
    dataSeek fs clusterId k = i32 (u32 (exactDataPos fs clusterId k : Int) : Nat) := by
  have hcluster : ((clusterId : Int) - 2) = ((clusterId - 2 : Nat) : Int) := by omega
  have hpos : fs.dataPos clusterId + k = (exactDataPos fs clusterId k : Int) := by
    unfold Fat32Private.dataPos exactDataPos
    rw [hcluster]
    push_cast
    ring
  have hmod : u32 ((getClusterDataDiskPos fs clusterId : Int) + k) =
      u32 (fs.dataPos clusterId + k) := by
    unfold getClusterDataDiskPos u32
    omega
  unfold dataSeek
  rw [hmod, hpos]

theorem entrySeek_eq (fs : Fat32Private) (clusterId : Nat) :
    entrySeek fs clusterId = i32 (u32 (exactEntryPos fs clusterId : Int) : Nat) := by
  unfold entrySeek exactEntryPos Fat32Private.entryPos
  rw [Nat.mul_comm fs.header.bytesPerSector.toNat]

/-- **The positions are the offsets exactly when** these lie below 2^31. -/
theorem seekPositions_exact_iff (fs : Fat32Private) {clusterId : Nat} (hc : 2 ≤ clusterId)
    (k : Nat) : (Located (dataSeek fs clusterId k) (exactDataPos fs clusterId k) ∧
      Located (entrySeek fs clusterId) (exactEntryPos fs clusterId)) ↔
    exactDataPos fs clusterId k < 2147483648 ∧ exactEntryPos fs clusterId < 2147483648 := by
  rw [dataSeek_eq fs hc, entrySeek_eq]
  exact and_congr located_iff located_iff

/-- The last byte of cluster 5 of the small volume. -/
theorem seekPositions_exact_iff_small :
    Located (dataSeek smallPrivate 5 511) (exactDataPos smallPrivate 5 511) ∧
      Located (entrySeek smallPrivate 5) (exactEntryPos smallPrivate 5) :=
  (seekPositions_exact_iff smallPrivate (by decide) 511).mpr (by decide)

/-! ## 3. A volume of more than 2 GiB -/

/-- The header of a volume whose FAT has 32769 sectors of 512 bytes. -/
def largeVolume : Disk where
  byte i :=
    match i with
    | 12 => 2
    | 13 => 1
    | 14 => 1
    | 16 => 1
    | 36 => 1
    | 37 => 0x80
    | 44 => 2
    | 66 => 0x29
    | _ => 0
  beside _ := 0

def largePrivate : Fat32Private := ⟨⟨512, 1, 1, 1, 32769, 2, 0x29⟩, 0x01002000, 512⟩

theorem largeVolume_resolve : (fat32Resolve bootKernel largeVolume).2.1 = some largePrivate := by
  decide +kernel

/-- **The cluster at 2 GiB**: its position is `INT_MIN`. -/
theorem seekPositions_negative :
    ¬ ∀ (k : Kernel) (d : Disk) (fs : Fat32Private), (fat32Resolve k d).2.1 = some fs →
      ∀ clusterId i, VolumeCluster fs clusterId → i < fs.clusterSizeBytes →
        Located (dataSeek fs clusterId i) (exactDataPos fs clusterId i) ∧
          Located (entrySeek fs clusterId) (exactEntryPos fs clusterId) := by
  intro h
  have hcluster : VolumeCluster largePrivate 4161536 := ⟨by decide, by decide, by decide⟩
  have hboth := h bootKernel largeVolume largePrivate largeVolume_resolve 4161536 0 hcluster
    (by decide)
  have hlocated := hboth.1
  rw [dataSeek_eq largePrivate (by decide), located_iff] at hlocated
  exact absurd hlocated (by decide)

end PeachKernel
