/-
  File:      PeachKernel/Fs/Fat16Links.lean
  Subject:   `fat16_get_cluster_for_offset` against the chain that the first FAT stores.

  Entry `c` of a FAT is its 16-bit word number `c`. The driver takes the PRODUCT of the FAT's
  position and the entry's offset for the position of the entry, and it stops at the marks of a FAT
  with 12-bit entries. So it follows the words of some other place of the disk.

  * `storedNext` -- the next cluster that the FAT stores, `none` behind the last one;
  * `storedCluster` -- what the function should answer: the cluster of an offset, or `-EIO`;
  * `LinkRight` -- of one cluster the driver finds what is stored;
  * `fat16GetClusterForOffset_stored_iff` -- up to an offset the answers are right exactly when all
    links on the way are.
-/
import PeachKernel.Fs.Fat16Read
import PeachKernel.Lib.Follow

namespace PeachKernel

open CInt Mem

/-! ## 1. The stored chain -/

/-- The words of a FAT that name no cluster: free, reserved, bad, and the end of a chain. -/
def NoCluster (link : Nat) : Prop := link = 0x0000 ∨ 0xFFF0 ≤ link

instance (link : Nat) : Decidable (NoCluster link) := inferInstanceAs (Decidable (_ ∨ _))

/-- The next cluster that the first FAT stores. -/
def storedNext (d : Disk) (fs : Fat16Private) (cluster : Nat) : Option Nat :=
  if NoCluster (fat16Link d fs cluster) then none else some (fat16Link d fs cluster)

/-- A cluster as a status: the number, or `-EIO` where there is none. -/
def clusterStatus (cluster : Option Nat) : Int := cluster.elim (- EIO) Int.ofNat

/-- **The cluster of an offset** in the chain from `start`. -/
def storedCluster (d : Disk) (fs : Fat16Private) (start offset : Nat) : Int :=
  clusterStatus (follow (storedNext d fs) start (offset / fs.sizeOfClusterBytes))

/-! ## 2. The driver's links -/

/-- The 16-bit word at a position of the disk. -/
def wordAt (d : Disk) (pos : Int) : Nat := load16 (bytesMem (readAt d pos 2)) 0

/-- Where the driver looks for the entry of a cluster. -/
def Fat16Private.entryPos (fs : Fat16Private) (cluster : Nat) : Int :=
  i32 (fs.header.reservedSectors.toNat * 512 * (cluster * 2))

/-- **The driver finds what is stored for a cluster**: the end of the chain, or the next cluster. -/
def LinkRight (d : Disk) (fs : Fat16Private) (cluster : Nat) : Prop :=
  if NoCluster (fat16Link d fs cluster) then fat16Stops (wordAt d (fs.entryPos cluster)) = true
  else wordAt d (fs.entryPos cluster) = fat16Link d fs cluster ∧
    fat16Stops (fat16Link d fs cluster) = false

/-- The next cluster that the driver finds. -/
def driverNext (d : Disk) (fs : Fat16Private) (cluster : Nat) : Option Nat :=
  if fat16Stops (fat16GetFatEntry d fs cluster) then none else some (fat16GetFatEntry d fs cluster)

section Links

variable {d : Disk} {fs : Fat16Private}

theorem fat16GetFatEntry_eq (cluster : Nat) :
    fat16GetFatEntry d fs cluster = wordAt d (fs.entryPos cluster) := rfl

/-- One link: the driver's is the stored one. -/
theorem driverNext_eq_iff (cluster : Nat) :
    driverNext d fs cluster = storedNext d fs cluster ↔ LinkRight d fs cluster := by
  unfold driverNext storedNext LinkRight
  rw [fat16GetFatEntry_eq]
  by_cases hend : NoCluster (fat16Link d fs cluster)
  · rw [if_pos hend, if_pos hend]
    cases hstop : fat16Stops (wordAt d (fs.entryPos cluster)) <;> simp
  · rw [if_neg hend, if_neg hend]
    constructor
    · intro h
      cases hstop : fat16Stops (wordAt d (fs.entryPos cluster)) with
      | true => simp [hstop] at h
      | false =>
        simp only [hstop, Bool.false_eq_true, if_false, Option.some.injEq] at h
        exact ⟨h, h ▸ hstop⟩
    · rintro ⟨hword, hstop⟩
      simp [hword, hstop]

/-- The loop follows the driver's links. -/
theorem clusterLoop_follow (n : Nat) : ∀ c : Nat,
    clusterLoop d fs n c = clusterStatus (follow (driverNext d fs) c n) := by
  induction n with
  | zero => exact fun _ => rfl
  | succ n ih =>
    intro c
    rw [clusterLoop, follow_head]
    unfold driverNext
    cases hstop : fat16Stops (fat16GetFatEntry d fs c) with
    | true => rfl
    | false =>
      simp only [Bool.false_eq_true, if_false, Option.bind_some]
      exact ih _

/-- A status tells what the cluster was. -/
theorem clusterStatus_inj {a b : Option Nat} (h : clusterStatus a = clusterStatus b) : a = b := by
  unfold clusterStatus at h
  cases a with
  | none =>
    cases b with
    | none => rfl
    | some b => simp at h
  | some a =>
    cases b with
    | none => simp at h
    | some b => simpa using h

/-- One offset. -/
theorem fat16GetClusterForOffset_follow (start offset : Nat) :
    fat16GetClusterForOffset d fs start offset =
      clusterStatus (follow (driverNext d fs) start (offset / fs.sizeOfClusterBytes)) :=
  clusterLoop_follow _ start

end Links

/-- **Up to an offset the function answers with the clusters of the stored chain exactly when** the
    driver finds the stored link of every cluster on the way there. -/
theorem fat16GetClusterForOffset_stored_iff (d : Disk) (fs : Fat16Private) (start last : Nat) :
    (∀ offset : Nat, offset ≤ last →
      fat16GetClusterForOffset d fs start offset = storedCluster d fs start offset) ↔
    ∀ j < last / fs.sizeOfClusterBytes, ∀ cluster, follow (storedNext d fs) start j = some cluster →
      LinkRight d fs cluster := by
  have hlinks := follow_agree_upto (driverNext d fs) (storedNext d fs) start
    (last / fs.sizeOfClusterBytes)
  simp only [driverNext_eq_iff] at hlinks
  rw [← hlinks]
  constructor
  · intro h k hk
    -- the first offset of the cluster
    have hoffset : k * fs.sizeOfClusterBytes ≤ last :=
      Nat.le_trans (Nat.mul_le_mul_right _ hk) (Nat.div_mul_le_self _ _)
    have hdiv : k * fs.sizeOfClusterBytes / fs.sizeOfClusterBytes = k := by
      rcases Nat.eq_zero_or_pos fs.sizeOfClusterBytes with h0 | hpos
      · rw [h0, Nat.div_zero] at hk
        rw [h0, Nat.div_zero, Nat.le_zero.mp hk]
      · exact Nat.mul_div_cancel k hpos
    have hright := h _ hoffset
    unfold storedCluster at hright
    rw [fat16GetClusterForOffset_follow, hdiv] at hright
    exact clusterStatus_inj hright
  · intro h offset hoffset
    unfold storedCluster
    rw [fat16GetClusterForOffset_follow, h _ (Nat.div_le_div_right hoffset)]

/-! ## 3. A volume -/

/-- The disk with these bytes, and 0 elsewhere. -/
def diskOf (bytes : List (Nat × UInt8)) : Disk := ⟨fun i => (bytes.lookup i).getD 0, fun _ => 0⟩

/-- A header: one sector for a cluster, one reserved sector, one FAT of one sector, 16 root
    entries. -/
def smallHeader : List (Nat × UInt8) :=
  [(11, 0x00), (12, 0x02), (13, 1), (14, 1), (16, 1), (17, 16), (22, 1), (38, 0x29)]

/-- The volume with one chain, of the clusters 2 and 3. -/
def twoClusterVolume : Disk := diskOf (smallHeader ++ [(516, 3), (518, 0xFF), (519, 0xFF)])

/-- The header's fields are bytes of the disk. -/
theorem fat16ReadHeader_byte (d : Disk) : fat16ReadHeader d =
    { sectorsPerCluster := d.byte 13
      reservedSectors := UInt16.ofNat (load16 d.byte 14)
      fatCopies := d.byte 16
      rootDirEntries := UInt16.ofNat (load16 d.byte 17)
      sectorsPerFat := UInt16.ofNat (load16 d.byte 22)
      signature := d.byte 38 } := by
  have hread : readAt d 0 62 = slice d.byte 0 62 := readAt_eq d (p := 0) (n := 62) (by decide)
  have hbyte : ∀ i < 62, bytesMem (slice d.byte 0 62) i = d.byte i := fun i hi => by
    rw [bytesMem_slice _ hi, Nat.zero_add]
  unfold fat16ReadHeader
  rw [hread]
  simp [load16, hbyte]

theorem twoClusterVolume_private : fat16Private twoClusterVolume = ⟨⟨1, 1, 1, 16, 1, 0x29⟩, 3⟩ := by
  unfold fat16Private
  rw [fat16ReadHeader_byte]
  decide

/-- **The second cluster is not found**: entry 2 is looked for at byte 512 * 4, which is file
    data. -/
theorem fat16GetClusterForOffset_astray : ¬ ∀ (d : Disk) (start offset : Nat),
    fat16GetClusterForOffset d (fat16Private d) start offset =
      storedCluster d (fat16Private d) start offset := by
  intro h
  have hright := h twoClusterVolume 2 512
  rw [twoClusterVolume_private] at hright
  exact absurd hright (by decide)

end PeachKernel
