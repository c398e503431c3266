/-
  File:      PeachKernel/Fs/Fat16Layout.lean
  Subject:   Where a FAT16 volume has its root directory and its data: `fat16_get_root_directory`.

  The root directory has `root_dir_entries` items of 32 bytes; the data area starts at the next
  sector. The function rounds the number of sectors up into a variable that nothing reads, and
  stores the number rounded down. The items are counted up to the first one that starts with 0,
  wherever that is.

  * `rootDirectoryOf`, `fat16GetRootDirectory_ok_iff` -- what the function leaves;
  * `fat16ClusterToSector_iff` -- the sector of a cluster is right exactly where the directory fills
    its last sector;
  * `entryByte`, `totalItems_iff` -- the count, for every disk;
  * `rootDirectory_total_iff` -- it stays inside the buffer exactly where the directory has an end,
    or where not more live items follow behind it than it has deleted ones.
-/
import PeachKernel.Fs.Resolve
import PeachKernel.Heap.Grow
import PeachKernel.Lib.CountPrefix

namespace PeachKernel

open CInt Mem

/-! ## 1. The root directory -/

/-- The structure that `fat16_get_root_directory` fills in. -/
def rootDirectoryOf (d : Disk) (header : Fat16Header) (address item : Nat) (total : Int) :
    FatDirectory where
  address := address
  item := item
  bytes := readAt d (i32 (header.rootDirSectorPos * 512)) (header.rootDirEntries.toNat * 32 : Nat)
  total := total
  sectorPos := header.rootDirSectorPos
  endingSectorPos := header.rootDirSectorPos + (header.rootDirEntries.toNat * 32 / 512 : Nat)

section Root

variable {k k' : Kernel} {d : Disk} {fuel address : Nat} {header : Fat16Header} {dir : FatDirectory}

/-- **When the function succeeds**: the count ends, and the buffer is granted. -/
theorem fat16GetRootDirectory_ok_iff :
    fat16GetRootDirectory k d fuel header address = some (.ok dir, k') ↔
      ∃ total, fat16GetTotalItemsForDirectory d fuel header.rootDirSectorPos = some total ∧
        (kzalloc k (header.rootDirEntries.toNat * 32)).1 ≠ 0 ∧
        k' = (kzalloc k (header.rootDirEntries.toNat * 32)).2 ∧
        dir = rootDirectoryOf d header address (kzalloc k (header.rootDirEntries.toNat * 32)).1
          total := by
  unfold fat16GetRootDirectory
  dsimp only
  cases fat16GetTotalItemsForDirectory d fuel header.rootDirSectorPos with
  | none => simp
  | some total =>
    dsimp only
    by_cases h0 : (kzalloc k (header.rootDirEntries.toNat * 32)).1 = 0
    · simp [h0]
    · rw [if_neg h0]
      constructor
      · intro h
        obtain ⟨h1, h2⟩ := Prod.mk.inj (Option.some.inj h)
        exact ⟨total, rfl, h0, h2.symm, (Except.ok.inj h1).symm⟩
      · rintro ⟨_, h, -, rfl, rfl⟩
        cases h
        rfl

/-- The bytes of the root directory, whatever they are. -/
theorem rootDirectoryOf_length (d : Disk) (header : Fat16Header) (address item : Nat)
    (total : Int) :
    (rootDirectoryOf d header address item total).bytes.length =
      header.rootDirEntries.toNat * 32 := by
  unfold rootDirectoryOf
  dsimp only
  rw [readAt_length, Int.toNat_natCast]

/-! ## 2. Sectors of clusters -/

/-- The sector of a cluster: behind the reserved sectors, the FATs, and the sectors of the root
    directory, of which the last one need not be full. -/
def Fat16Header.clusterSector (h : Fat16Header) (cluster : Nat) : Nat :=
  h.reservedSectors.toNat + h.fatCopies.toNat * h.sectorsPerFat.toNat +
    ceilDiv (h.rootDirEntries.toNat * 32) 512 + (cluster - 2) * h.sectorsPerCluster.toNat

/-- **The sector of a cluster is the right one exactly** where the items of the root directory fill
    their last sector, and the number is an `int`. -/
theorem fat16ClusterToSector_iff
    (h : fat16GetRootDirectory k d fuel header address = some (.ok dir, k')) {cluster : Nat}
    (hc : 2 ≤ cluster) :
    fat16ClusterToSector ⟨header, dir.endingSectorPos.toNat⟩ cluster =
      header.clusterSector cluster ↔ header.rootDirEntries.toNat % 16 = 0 ∧
      header.clusterSector cluster < 2147483648 := by
  obtain ⟨total, -, -, -, rfl⟩ := fat16GetRootDirectory_ok_iff.mp h
  have hdata : ((cluster : Int) - 2) * header.sectorsPerCluster.toNat =
      (((cluster - 2) * header.sectorsPerCluster.toNat : Nat) : Int) := by
    rw [Nat.cast_mul, Nat.cast_sub hc]
    rfl
  unfold fat16ClusterToSector rootDirectoryOf Fat16Header.clusterSector Fat16Header.rootDirSectorPos
    ceilDiv i32
  dsimp only
  rw [hdata]
  generalize (cluster - 2) * header.sectorsPerCluster.toNat = data
  generalize header.fatCopies.toNat * header.sectorsPerFat.toNat = fats
  generalize header.rootDirEntries.toNat = entries
  omega

end Root

/-! ## 3. The count -/

/-- The first byte of item `i` of a directory that starts at a position of the disk, as the stream
    of the driver finds it: its position is an `int`. -/
def entryByte (d : Disk) (start : Int) (i : Nat) : UInt8 :=
  (readAt d (i32 (start + 32 * i)) 32).headD 0

/-- `directory_start_pos`. -/
def directoryStart (sector : Int) : Int := i32 (u32 sector * 512)

/-- The item ends the directory. -/
def IsEnd (d : Disk) (start : Int) (i : Nat) : Prop := entryByte d start i = 0x00

/-- The item is not deleted. -/
def IsLive (d : Disk) (start : Int) (i : Nat) : Prop := entryByte d start i ≠ 0xE5

instance (d : Disk) (start : Int) : DecidablePred (IsEnd d start) :=
  fun _ => inferInstanceAs (Decidable (_ = _))

instance (d : Disk) (start : Int) : DecidablePred (IsLive d start) :=
  fun _ => inferInstanceAs (Decidable (_ ≠ _))

section Count

variable {d : Disk} {fuel : Nat} {start : Int}

/-- The items of a directory from item `i` on. -/
theorem entryByte_add (d : Disk) (start : Int) (i j : Nat) :
    entryByte d (start + 32 * i) j = entryByte d start (i + j) := by
  unfold entryByte
  congr 2
  push_cast
  ring_nf

/-- Behind the first item. -/
theorem isEnd_succ (d : Disk) (start : Int) :
    (fun i => IsEnd d start (i + 1)) = IsEnd d (start + 32) := by
  funext i
  have h := entryByte_add d start 1 i
  unfold IsEnd
  rw [Nat.add_comm i, ← h]
  simp

theorem isLive_succ (d : Disk) (start : Int) :
    (fun i => IsLive d start (i + 1)) = IsLive d (start + 32) := by
  funext i
  have h := entryByte_add d start 1 i
  unfold IsLive
  rw [Nat.add_comm i, ← h]
  simp

theorem count_isLive_succ (m : Nat) : Nat.count (IsLive d start) (m + 1) =
    Nat.count (IsLive d (start + 32)) m + if IsLive d start 0 then 1 else 0 := by
  rw [Nat.count_succ']
  simp only [isLive_succ]

/-- **The loop**: induction on the turns; `n` items were counted before. -/
theorem totalItemsLoop_iff (fuel : Nat) : ∀ {start n total : Int},
    totalItemsLoop d fuel (i32 start) (i32 n) = some total ↔
      ∃ m < fuel, EndsAt (IsEnd d start) m ∧ total = i32 (n + Nat.count (IsLive d start) m) := by
  induction fuel with
  | zero => simp [totalItemsLoop]
  | succ fuel ih =>
    intro start n total
    have hpos : (diskstreamerRead d (i32 start) 32).pos = i32 (start + 32) := by
      have h := diskstreamerRead_pos d (i32 start) 32
      rwa [i32_i32_add] at h
    have hbyte : (diskstreamerRead d (i32 start) 32).out.headD 0 = entryByte d start 0 := by
      unfold entryByte readAt
      simp
    rw [totalItemsLoop, hbyte, hpos]
    by_cases h0 : IsEnd d start 0
    · rw [if_pos (show entryByte d start 0 = 0x00 from h0)]
      constructor
      · intro h
        exact ⟨0, Nat.succ_pos fuel, endsAt_zero.mpr h0, by simpa using (Option.some.inj h).symm⟩
      · rintro ⟨m, -, hm, rfl⟩
        rw [hm.unique (endsAt_zero.mpr h0)]
        simp
    · rw [if_neg (show ¬ entryByte d start 0 = 0x00 from h0)]
      -- the first item is passed, and counted where it is live
      have hstep : ∀ n', (∀ m, n + Nat.count (IsLive d start) (m + 1) =
          n' + Nat.count (IsLive d (start + 32)) m) →
          ((∃ m < fuel + 1, EndsAt (IsEnd d start) m ∧
            total = i32 (n + Nat.count (IsLive d start) m)) ↔
          ∃ m < fuel, EndsAt (IsEnd d (start + 32)) m ∧
            total = i32 (n' + Nat.count (IsLive d (start + 32)) m)) := by
        intro n' hn
        constructor
        · rintro ⟨m, hm, hend, rfl⟩
          cases m with
          | zero => exact absurd (endsAt_zero.mp hend) h0
          | succ m =>
            rw [endsAt_succ, isEnd_succ] at hend
            exact ⟨m, Nat.lt_of_succ_lt_succ hm, hend.2, by rw [hn]⟩
        · rintro ⟨m, hm, hend, rfl⟩
          refine ⟨m + 1, Nat.succ_lt_succ hm, ?_, by rw [hn]⟩
          rw [endsAt_succ, isEnd_succ]
          exact ⟨h0, hend⟩
      by_cases hdel : entryByte d start 0 = 0xE5
      · have hlive : ¬ IsLive d start 0 := not_not.mpr hdel
        rw [if_pos hdel, ih, hstep n fun m => by rw [count_isLive_succ, if_neg hlive, Nat.add_zero]]
      · have hlive : IsLive d start 0 := hdel
        rw [if_neg hdel, i32_i32_add, ih, hstep (n + 1) fun m => by
          rw [count_isLive_succ, if_pos hlive]
          push_cast
          omega]

/-- The positions come back after `2^27` items, so an end is found before, or never. -/
theorem endsAt_lt_wrap {m : Nat} (h : EndsAt (IsEnd d start) m) : m < 134217728 := by
  by_contra hge
  obtain ⟨j, rfl⟩ := Nat.exists_eq_add_of_le (Nat.not_lt.mp hge)
  refine h.2 j (by omega) ?_
  have hend := h.1
  unfold IsEnd entryByte at hend ⊢
  rw [← hend]
  congr 2
  unfold i32
  push_cast
  omega

/-- **The count of a directory**: the live items before the first one that starts with 0. -/
theorem totalItems_iff {sector total : Int} :
    fat16GetTotalItemsForDirectory d fuel sector = some total ↔
      ∃ m < fuel, EndsAt (IsEnd d (directoryStart sector)) m ∧
        total = Nat.count (IsLive d (directoryStart sector)) m := by
  have hstart : i32 (directoryStart sector) = directoryStart sector := by
    have h := i32_i32_add (u32 sector * 512) 0
    rwa [Int.add_zero, Int.add_zero] at h
  have h := @totalItemsLoop_iff d fuel (directoryStart sector) 0 total
  rw [hstart, show i32 0 = 0 from rfl] at h
  refine (Iff.trans (by rfl) h).trans ?_
  refine exists_congr fun m => and_congr_right fun _ => and_congr_right fun hend => ?_
  -- so few items that their number is an `int`
  have hlt := endsAt_lt_wrap hend
  have hle : Nat.count (IsLive d (directoryStart sector)) m ≤ m := Nat.count_le _
  rw [Int.zero_add, i32_natCast_of_lt (by omega)]

end Count

/-! ## 4. The mounted volume -/

section Mount

variable {k k' : Kernel} {d : Disk} {fuel : Nat} {r : Resolved Fat16Mount} {v : Fat16Mount}

/-- **What `fat16_resolve` mounts** has the header of the disk, and the root directory that
    `fat16_get_root_directory` has filled in. -/
theorem fat16Resolve_mount (h : fat16Resolve k d fuel = some r) (hv : r.priv = some v) :
    (∃ k₁ address k₂, fat16GetRootDirectory k₁ d fuel (fat16ReadHeader d) address =
      some (.ok v.rootDirectory, k₂)) ∧ v.header = fat16ReadHeader d ∧
      v.endingSectorPos = v.rootDirectory.endingSectorPos.toNat := by
  unfold fat16Resolve at h
  dsimp only at h
  split at h
  · cases h
    cases hv
  · split at h
    · cases h
      cases hv
    · split at h
      · cases h
      · cases h
        cases hv
      · rename_i hroot
        cases h
        cases hv
        exact ⟨⟨_, _, _, hroot⟩, rfl, rfl⟩

/-- `root_dir_entries` of the disk. -/
def rootEntries (d : Disk) : Nat := (fat16ReadHeader d).rootDirEntries.toNat

/-- Where the root directory starts. -/
def rootStart (d : Disk) : Int := directoryStart (fat16ReadHeader d).rootDirSectorPos

/-- **The root directory has an end**, or it is followed by at most as many live items, up to the
    first one that starts with 0, as it has deleted ones. -/
def RootFits (d : Disk) : Prop :=
  (∃ i < rootEntries d, IsEnd d (rootStart d) i) ∨
  ∀ n, EndsAt (IsEnd d (rootStart d)) n →
    Nat.count (fun i => IsLive d (rootStart d) (rootEntries d + i)) (n - rootEntries d) ≤
      Nat.count (fun i => ¬ IsLive d (rootStart d) i) (rootEntries d)

/-- The search goes through items of the buffer only. -/
def FatDirectory.Inside (dir : FatDirectory) : Prop :=
  ∀ i : Nat, (i : Int) < dir.total → 32 * i + 32 ≤ dir.bytes.length

/-- **The count of the root directory stays within its entries exactly under the condition**, and
    then the search stays inside the buffer. -/
theorem rootDirectory_total_iff (h : fat16Resolve k d fuel = some r) (hv : r.priv = some v) :
    (v.rootDirectory.total ≤ v.header.rootDirEntries.toNat ∧ v.rootDirectory.Inside) ↔
    RootFits d := by
  obtain ⟨⟨k₁, address, k₂, hroot⟩, hheader, -⟩ := fat16Resolve_mount h hv
  obtain ⟨total, htotal, -, -, hdir⟩ := fat16GetRootDirectory_ok_iff.mp hroot
  obtain ⟨n, -, hend, rfl⟩ := totalItems_iff.mp htotal
  rw [hdir, hheader]
  have hinside : (rootDirectoryOf d (fat16ReadHeader d) address
      (kzalloc k₁ ((fat16ReadHeader d).rootDirEntries.toNat * 32)).1
      (Nat.count (IsLive d (rootStart d)) n)).Inside ↔
        Nat.count (IsLive d (rootStart d)) n ≤ rootEntries d := by
    unfold FatDirectory.Inside
    rw [rootDirectoryOf_length]
    unfold rootDirectoryOf rootEntries
    dsimp only
    constructor
    · intro hin
      by_contra hlt
      have := hin (fat16ReadHeader d).rootDirEntries.toNat (by omega)
      omega
    · intro hle i hi
      omega
  have htotal_le : (Nat.count (IsLive d (rootStart d)) n : Int) ≤ (rootEntries d : Nat) ↔
      Nat.count (IsLive d (rootStart d)) n ≤ rootEntries d := Int.ofNat_le
  refine (and_congr htotal_le hinside).trans ?_
  rw [and_self]
  unfold RootFits
  by_cases hr : n < rootEntries d
  · -- the end lies in the root directory
    have hle : Nat.count (IsLive d (rootStart d)) n ≤ n := Nat.count_le _
    exact ⟨fun _ => Or.inl ⟨n, hr, hend.1⟩, fun _ => by omega⟩
  · rw [count_behind_iff (Nat.not_lt.mp hr)]
    constructor
    · intro hle
      refine Or.inr fun m hm => ?_
      rw [hm.unique hend]
      exact hle
    · rintro (⟨i, hi, hzero⟩ | hle)
      · exact absurd hzero (hend.2 i (by omega))
      · exact hle n hend

/-- **A volume is mounted** where the count ends and six blocks are free. -/
theorem fat16Resolve_granted (hp : k.heap.Placed) (hf : 6 ≤ freeBlocks k.heap)
    (hsig : (fat16ReadHeader d).signature = 0x29) (h1 : 1 ≤ rootEntries d)
    (h2 : rootEntries d ≤ 128) {total : Int}
    (ht : fat16GetTotalItemsForDirectory d fuel (fat16ReadHeader d).rootDirSectorPos = some total) :
    ∃ r v, fat16Resolve k d fuel = some r ∧ r.priv = some v ∧ v.rootDirectory.total = total := by
  unfold rootEntries at h1 h2
  obtain ⟨fatPrivate, k₁, e₁, -, hp₁, hf₁⟩ := kzalloc_one hp (by omega) 92 (by decide) (by decide)
  obtain ⟨s₁, k₂, e₂, -, hp₂, hf₂⟩ := kzalloc_one hp₁ (by omega) 8 (by decide) (by decide)
  obtain ⟨s₂, k₃, e₃, -, hp₃, hf₃⟩ := kzalloc_one hp₂ (by omega) 8 (by decide) (by decide)
  obtain ⟨s₃, k₄, e₄, -, hp₄, hf₄⟩ := kzalloc_one hp₃ (by omega) 8 (by decide) (by decide)
  obtain ⟨stream, k₅, e₅, hne, hp₅, hf₅⟩ := kzalloc_one hp₄ (by omega) 8 (by decide) (by decide)
  obtain ⟨dir, k₆, e₆, hdir, -, -⟩ := kzalloc_one hp₅ (by omega)
    ((fat16ReadHeader d).rootDirEntries.toNat * 32) (by omega) (by omega)
  have hroot : fat16GetRootDirectory k₅ d fuel (fat16ReadHeader d) (fatPrivate + 64) =
      some (.ok (rootDirectoryOf d (fat16ReadHeader d) (fatPrivate + 64) dir total), k₆) := by
    refine fat16GetRootDirectory_ok_iff.mpr ⟨total, ht, ?_, ?_, ?_⟩
    · rw [e₆]
      exact hdir
    · rw [e₆]
    · rw [e₆]
  unfold fat16Resolve diskstreamerNew
  simp only [e₁, e₂, e₃, e₄, e₅, if_neg hne, hsig, hroot, ne_eq, not_true_eq_false, if_false]
  exact ⟨_, _, rfl, rfl, rfl⟩

end Mount

/-! ## 5. Volumes -/

/-- The header with another number of root entries, and an empty root directory. -/
def volumeWith (rootDirEntries : UInt8) : Disk := diskOf ((17, rootDirEntries) :: smallHeader)

theorem volumeWith_total : fat16GetTotalItemsForDirectory (volumeWith 1) 1 2 = some 0 := by
  decide +kernel

theorem volumeWith_root {n : UInt16} (h1 : 1 ≤ n.toNat) (h2 : n.toNat ≤ 128) :
    ∃ dir k', fat16GetRootDirectory emptyKernel (volumeWith 1) 1 ⟨1, 1, 1, n, 1, 0x29⟩ 0 =
      some (.ok dir, k') := by
  have hf : 0 < freeBlocks emptyKernel.heap := by
    rw [emptyKernel_free]
    decide
  obtain ⟨dir, k', e, hne, -⟩ := kzalloc_one (k := emptyKernel) emptyKernel_placed hf (n.toNat * 32)
    (by omega) (by omega)
  refine ⟨_, k', fat16GetRootDirectory_ok_iff.mpr ⟨0, volumeWith_total, ?_, ?_, rfl⟩⟩
  · rw [e]
    exact hne
  · rw [e]

/-- **One root entry**: the data area is taken to start at the sector of the root directory. -/
theorem fat16ClusterToSector_short : ¬ ∀ (k k' : Kernel) (d : Disk) (fuel address : Nat)
    (header : Fat16Header) (dir : FatDirectory),
    fat16GetRootDirectory k d fuel header address = some (.ok dir, k') →
    ∀ cluster : Nat, 2 ≤ cluster →
      fat16ClusterToSector ⟨header, dir.endingSectorPos.toNat⟩ cluster =
        header.clusterSector cluster := by
  intro h
  obtain ⟨dir, k', hroot⟩ := volumeWith_root (n := 1) (by decide) (by decide)
  have hright := (fat16ClusterToSector_iff hroot (le_refl 2)).mp
    (h _ _ _ _ _ _ _ hroot 2 (le_refl 2))
  exact absurd hright.1 (by decide)

/-- 16 root entries. -/
theorem fat16ClusterToSector_iff_full : ∃ dir k',
    fat16GetRootDirectory emptyKernel (volumeWith 1) 1 ⟨1, 1, 1, 16, 1, 0x29⟩ 0 =
      some (.ok dir, k') ∧
    fat16ClusterToSector ⟨⟨1, 1, 1, 16, 1, 0x29⟩, dir.endingSectorPos.toNat⟩ (2 : Nat) = 3 := by
  obtain ⟨dir, k', hroot⟩ := volumeWith_root (n := 16) (by decide) (by decide)
  exact ⟨dir, k', hroot, (fat16ClusterToSector_iff hroot (le_refl 2)).mpr (by decide)⟩

/-- A root directory of 16 live items, with file data behind it that starts with a letter. -/
def fullRootVolume : Disk :=
  ⟨fun i => if 1024 ≤ i ∧ i ≤ 1536 then 0x41 else (diskOf smallHeader).byte i, fun _ => 0⟩

theorem smallVolume_header {d : Disk} (h : ∀ i < 62, d.byte i = (diskOf smallHeader).byte i) :
    fat16ReadHeader d = ⟨1, 1, 1, 16, 1, 0x29⟩ := by
  rw [fat16ReadHeader_byte]
  simp only [load16, h 13 (by decide), h 14 (by decide), h 15 (by decide), h 16 (by decide),
    h 17 (by decide), h 18 (by decide), h 22 (by decide), h 23 (by decide), h 38 (by decide)]
  rfl

theorem fullRootVolume_header : fat16ReadHeader fullRootVolume = ⟨1, 1, 1, 16, 1, 0x29⟩ :=
  smallVolume_header fun i hi => if_neg (by omega)

/-- A volume with this header is mounted. -/
theorem smallVolume_mount {d : Disk} (hd : fat16ReadHeader d = ⟨1, 1, 1, 16, 1, 0x29⟩) {fuel : Nat}
    {total : Int} (ht : fat16GetTotalItemsForDirectory d fuel 2 = some total) :
    ∃ r v, fat16Resolve emptyKernel d fuel = some r ∧ r.priv = some v ∧
      v.rootDirectory.total = total := by
  have hentries : rootEntries d = 16 := by
    unfold rootEntries
    rw [hd]
    rfl
  refine fat16Resolve_granted (kernelHeap_placed _) ?_ ?_ ?_ ?_ ?_
  · rw [emptyKernel_free]
    decide
  · rw [hd]
  · omega
  · omega
  · rw [hd]
    exact ht

/-- **The full root directory**: 17 items are counted. -/
theorem rootDirectory_total_runs_on : ¬ ∀ (k : Kernel) (d : Disk) (fuel : Nat)
    (r : Resolved Fat16Mount) (v : Fat16Mount), fat16Resolve k d fuel = some r → r.priv = some v →
      v.rootDirectory.total ≤ v.header.rootDirEntries.toNat ∧ v.rootDirectory.Inside := by
  intro h
  have ht : fat16GetTotalItemsForDirectory fullRootVolume 18 2 = some 17 := by decide +kernel
  obtain ⟨r, v, hr, hv, htotal⟩ := smallVolume_mount fullRootVolume_header ht
  have hle := (h _ _ _ r v hr hv).1
  rw [htotal, (fat16Resolve_mount hr hv).2.1, fullRootVolume_header] at hle
  exact absurd hle (by decide)

/-- An empty root directory. -/
theorem rootDirectory_total_iff_empty :
    ∃ r v, fat16Resolve emptyKernel (diskOf smallHeader) 1 = some r ∧ r.priv = some v ∧
      v.rootDirectory.total ≤ v.header.rootDirEntries.toNat ∧ v.rootDirectory.Inside := by
  have hd : fat16ReadHeader (diskOf smallHeader) = ⟨1, 1, 1, 16, 1, 0x29⟩ :=
    smallVolume_header fun _ _ => rfl
  have ht : fat16GetTotalItemsForDirectory (diskOf smallHeader) 1 2 = some 0 := by decide +kernel
  obtain ⟨r, v, hr, hv, -⟩ := smallVolume_mount hd ht
  refine ⟨r, v, hr, hv, (rootDirectory_total_iff hr hv).mpr (Or.inl ⟨0, ?_, ?_⟩)⟩
  · unfold rootEntries
    rw [hd]
    decide
  · unfold rootStart
    rw [hd]
    show entryByte _ _ 0 = 0x00
    decide +kernel

end PeachKernel
