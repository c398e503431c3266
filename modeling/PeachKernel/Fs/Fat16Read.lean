/-
  File:      PeachKernel/Fs/Fat16Read.lean
  Subject:   A FAT16 descriptor as a cursor: what sequences of `fat16_read` calls deliver.

  The loop of `fat16_read` moves a copy of `pos`, nothing compares with the file's size, and a chunk
  of a cluster's length is read from wherever in the cluster the item starts. So a run of calls is
  a cursor's only under conditions on its calls.

  * `fat16Chain`, `fat16FileByte` -- the chain that the FAT stores, and the file's bytes on it;
  * `Readable` -- the driver's lookups find the first clusters of that chain;
  * `StaysInCluster` -- no chunk of an item runs into a cluster that is not the next of the chain;
  * `fat16ReadInternalBy`, `fat16ReadInternalBy_pieces` -- the recursion of a read, with the next
    cluster given, piece by piece;
  * `CallsOk`, `fat16Reads_cursor` -- runs of calls that deliver the file's bytes in order.
-/
import PeachKernel.Fs.Fat16
import Mathlib.Logic.Function.Iterate

namespace PeachKernel

open CInt Mem

/-! ## 1. The file -/

/-- The link that the first FAT stores for a cluster. -/
def fat16Link (d : Disk) (fs : Fat16Private) (cluster : Nat) : Nat :=
  load16 d.byte (fs.header.reservedSectors.toNat * 512 + 2 * cluster)

/-- The `j`-th cluster of the chain from `start`, as stored. -/
def fat16Chain (d : Disk) (fs : Fat16Private) (start j : Nat) : Nat := (fat16Link d fs)^[j] start

/-- Where a cluster lies on the disk. -/
def fat16DataPos (fs : Fat16Private) (cluster : Nat) : Int :=
  (fs.endingSectorPos + ((cluster : Int) - 2) * fs.header.sectorsPerCluster.toNat) * 512

/-- Byte `k` of the file whose chain starts at `start`. -/
def fat16FileByte (d : Disk) (fs : Fat16Private) (start : Nat) : Nat → UInt8 :=
  pieced (fun j i => d.byte ((fat16DataPos fs (fat16Chain d fs start j)).toNat + i))
    fs.sizeOfClusterBytes

/-- The driver finds the clusters of the first `size` bytes: what it reads as their FAT entries are
    the stored links and no stop values, and their data lies inside an image of `imageSize`
    bytes. -/
structure Readable (d : Disk) (fs : Fat16Private) (start size imageSize : Nat) : Prop where
  links : ∀ j, (j + 1) * fs.sizeOfClusterBytes < size →
    fat16GetFatEntry d fs (fat16Chain d fs start j : Nat) = fat16Chain d fs start (j + 1) ∧
      fat16Stops (fat16Chain d fs start (j + 1)) = false
  inside : ∀ j, j * fs.sizeOfClusterBytes < size →
    0 ≤ fat16DataPos fs (fat16Chain d fs start j) ∧
      fat16DataPos fs (fat16Chain d fs start j) + fs.sizeOfClusterBytes ≤ imageSize

/-- An item of `n` bytes at `offset` is read in chunks of a cluster's length. Each of them ends
    inside its cluster, or the next cluster of the chain is also the next one on the disk. -/
def StaysInCluster (d : Disk) (fs : Fat16Private) (start offset n : Nat) : Prop :=
  ∀ m, m * fs.sizeOfClusterBytes < n →
    offset % fs.sizeOfClusterBytes + min (n - m * fs.sizeOfClusterBytes) fs.sizeOfClusterBytes ≤
      fs.sizeOfClusterBytes ∨
    fat16Chain d fs start (offset / fs.sizeOfClusterBytes + m + 1) =
      fat16Chain d fs start (offset / fs.sizeOfClusterBytes + m) + 1

/-! ## 2. Lookups -/

section Reading

variable {d : Disk} {fs : Fat16Private} {start size imageSize : Nat}

theorem clusterLoop_chain {n : Nat} (h : ∀ j, j < n →
    fat16GetFatEntry d fs (fat16Chain d fs start j : Nat) = fat16Chain d fs start (j + 1) ∧
      fat16Stops (fat16Chain d fs start (j + 1)) = false) :
    clusterLoop d fs n start = fat16Chain d fs start n := by
  induction n generalizing start with
  | zero => rfl
  | succ n ih =>
    obtain ⟨he, hs⟩ := h 0 (Nat.succ_pos n)
    have e0 : fat16Chain d fs start 0 = start := rfl
    have e1 : ∀ j, fat16Chain d fs (fat16Chain d fs start 1) j = fat16Chain d fs start (j + 1) :=
      fun j => (Function.iterate_add_apply (fat16Link d fs) j 1 start).symm
    rw [e0] at he
    rw [clusterLoop, he, if_neg (by rw [hs]; decide)]
    rw [ih fun j hj => ?_, e1]
    rw [e1, e1]
    exact h (j + 1) (Nat.succ_lt_succ hj)

/-- The cluster of an offset inside the readable part. -/
theorem fat16GetClusterForOffset_chain (hr : Readable d fs start size imageSize) {o : Nat}
    (ho : o < size) : fat16GetClusterForOffset d fs start o =
      fat16Chain d fs start (o / fs.sizeOfClusterBytes) := by
  have e : ((o : Int).tdiv fs.sizeOfClusterBytes).toNat = o / fs.sizeOfClusterBytes := rfl
  unfold fat16GetClusterForOffset
  dsimp only
  rw [e]
  refine clusterLoop_chain fun j hj => hr.links j (lt_of_le_of_lt ?_ ho)
  exact le_trans (Nat.mul_le_mul_right _ hj) (Nat.div_mul_le_self _ _)

/-- The position a chunk is read at. -/
theorem startingPos_eq {z : Int} {a : Nat} (h0 : 0 ≤ z * 512) (h1 : z * 512 + a < 2147483648) :
    i32 (i32 z * 512 + a) = ((z * 512).toNat + a : Nat) := by
  rw [i32_of_range (z := z) (by omega) (by omega), i32_of_range (by omega) h1]
  omega

theorem fat16DataPos_succ (c : Nat) :
    fat16DataPos fs (c + 1) = fat16DataPos fs c + fs.sizeOfClusterBytes := by
  unfold fat16DataPos Fat16Private.sizeOfClusterBytes
  push_cast
  ring

/-- A chunk's end, at most one cluster behind the cluster it starts in, lies inside the image. -/
theorem chunk_end (hr : Readable d fs start size imageSize) (hcs : 0 < fs.sizeOfClusterBytes)
    {o n : Nat} (hle : n ≤ fs.sizeOfClusterBytes) (ho : o + n ≤ size) (hn : 0 < n)
    (hs : o % fs.sizeOfClusterBytes + n ≤ fs.sizeOfClusterBytes ∨
      fat16Chain d fs start (o / fs.sizeOfClusterBytes + 1) =
        fat16Chain d fs start (o / fs.sizeOfClusterBytes) + 1) :
    0 ≤ fat16DataPos fs (fat16Chain d fs start (o / fs.sizeOfClusterBytes)) ∧
    fat16DataPos fs (fat16Chain d fs start (o / fs.sizeOfClusterBytes)) +
      (o % fs.sizeOfClusterBytes : Nat) + n ≤ imageSize := by
  have hmod := Nat.mod_lt o hcs
  obtain ⟨h1, h2⟩ := hr.inside (o / fs.sizeOfClusterBytes)
    (lt_of_le_of_lt (Nat.div_mul_le_self _ _) (by omega))
  refine ⟨h1, ?_⟩
  by_cases hin : o % fs.sizeOfClusterBytes + n ≤ fs.sizeOfClusterBytes
  · omega
  · have hnext := hs.resolve_left hin
    have hlt : (o / fs.sizeOfClusterBytes + 1) * fs.sizeOfClusterBytes < size := by
      have := Nat.div_add_mod' o fs.sizeOfClusterBytes
      rw [Nat.add_mul, Nat.one_mul]
      omega
    obtain ⟨-, h3⟩ := hr.inside _ hlt
    rw [hnext, fat16DataPos_succ] at h3
    omega

/-- **One chunk** delivers bytes of the file. -/
theorem chunk_file (hi : imageSize < 2147483648) (hr : Readable d fs start size imageSize)
    (hcs : 0 < fs.sizeOfClusterBytes) {o n : Nat} (hle : n ≤ fs.sizeOfClusterBytes)
    (ho : o + n ≤ size) (hn : 0 < n)
    (hs : o % fs.sizeOfClusterBytes + n ≤ fs.sizeOfClusterBytes ∨
      fat16Chain d fs start (o / fs.sizeOfClusterBytes + 1) =
        fat16Chain d fs start (o / fs.sizeOfClusterBytes) + 1) :
    readAt d (i32 (fat16ClusterToSector fs
        (fat16Chain d fs start (o / fs.sizeOfClusterBytes) : Nat) * 512 +
          (o % fs.sizeOfClusterBytes : Nat))) n =
      slice (fat16FileByte d fs start) o n := by
  obtain ⟨h1, h2⟩ := chunk_end hr hcs hle ho hn hs
  have hmod := Nat.mod_lt o hcs
  have epos : i32 (fat16ClusterToSector fs
      (fat16Chain d fs start (o / fs.sizeOfClusterBytes) : Nat) * 512 +
        (o % fs.sizeOfClusterBytes : Nat)) =
      (((fat16DataPos fs (fat16Chain d fs start (o / fs.sizeOfClusterBytes))).toNat +
        o % fs.sizeOfClusterBytes : Nat) : Int) := by
    refine startingPos_eq h1 ?_
    have : fat16DataPos fs (fat16Chain d fs start (o / fs.sizeOfClusterBytes)) +
      (o % fs.sizeOfClusterBytes : Nat) < 2147483648 := by omega
    exact this
  rw [epos, readAt_eq d (by omega)]
  refine slice_congr fun i hin => ?_
  unfold fat16FileByte
  by_cases hlt : o % fs.sizeOfClusterBytes + i < fs.sizeOfClusterBytes
  · rw [pieced_of_lt _ hlt, Nat.add_assoc]
  · -- behind the cluster's end: the next cluster on the disk is the next of the chain
    have hnext := hs.resolve_left (by omega)
    rw [pieced_of_ge _ (by omega) (by omega), hnext, fat16DataPos_succ]
    congr 1
    omega

/-! ## 3. The recursion, with the next cluster given -/

/-- The loop of `fat16_get_cluster_for_offset`. -/
def clusterLoopBy (next : Int → Nat) : (clustersAhead : Nat) → (clusterToUse : Int) → Int
  | 0, clusterToUse => clusterToUse
  | clustersAhead + 1, clusterToUse =>
    let entry := next clusterToUse
    if fat16Stops entry then - EIO else clusterLoopBy next clustersAhead entry

def fat16GetClusterForOffsetBy (next : Int → Nat) (fs : Fat16Private)
    (startingCluster offset : Int) : Int :=
  let clustersAhead := offset.tdiv fs.sizeOfClusterBytes
  clusterLoopBy next clustersAhead.toNat startingCluster

/-- `fat16_read_internal`. -/
def fat16ReadInternalBy (next : Int → Nat) (d : Disk) (fs : Fat16Private) :
    (fuel : Nat) → (cluster offset total : Int) → Option (Int × List UInt8)
  | 0, _, _, _ => none
  | fuel + 1, cluster, offset, total =>
    let clusterToUse := fat16GetClusterForOffsetBy next fs cluster offset
    if clusterToUse < 0 then some (clusterToUse, [])
    else
      let offsetFromCluster := offset.tmod fs.sizeOfClusterBytes
      let startingSector := fat16ClusterToSector fs clusterToUse
      let startingPos := i32 (startingSector * 512 + offsetFromCluster)
      let totalToRead :=
        if fs.sizeOfClusterBytes < total then (fs.sizeOfClusterBytes : Int) else total
      let out := readAt d startingPos totalToRead
      let total := total - totalToRead
      if 0 < total then
        (fat16ReadInternalBy next d fs fuel cluster (i32 (offset + totalToRead)) total).map fun r =>
          (r.1, out ++ r.2)
      else some (0, out)

theorem clusterLoopBy_driver (d : Disk) (fs : Fat16Private) (n : Nat) :
    ∀ c, clusterLoopBy (fat16GetFatEntry d fs) n c = clusterLoop d fs n c := by
  induction n with
  | zero => exact fun _ => rfl
  | succ n ih =>
    intro c
    rw [clusterLoopBy, clusterLoop, ih]

/-- **The driver** is the case of its own `fat16_get_fat_entry`. -/
theorem fat16ReadInternalBy_driver (d : Disk) (fs : Fat16Private) (fuel : Nat) :
    ∀ cluster offset total, fat16ReadInternalBy (fat16GetFatEntry d fs) d fs fuel cluster offset
      total = fat16ReadInternal d fs fuel cluster offset total := by
  induction fuel with
  | zero => exact fun _ _ _ => rfl
  | succ fuel ih =>
    intro cluster offset total
    have e : fat16GetClusterForOffsetBy (fat16GetFatEntry d fs) fs cluster offset =
        fat16GetClusterForOffset d fs cluster offset := clusterLoopBy_driver d fs _ _
    simp only [fat16ReadInternalBy, fat16ReadInternal, e, ih]

/-- **The recursion**: where every piece of a cluster's length delivers its part of `b`, the call
    delivers all of it. -/
theorem fat16ReadInternalBy_pieces {next : Int → Nat} (b : Nat → UInt8)
    (hcs : 0 < fs.sizeOfClusterBytes) {fuel o s n : Nat} (hn : 0 < n) (hf : n ≤ fuel)
    (hend : o + n < 2147483648) (hpiece : ∀ m, m * fs.sizeOfClusterBytes < n → ∃ c : Nat,
      fat16GetClusterForOffsetBy next fs start (o + m * fs.sizeOfClusterBytes : Nat) = c ∧
      readAt d (i32 (fat16ClusterToSector fs c * 512 + (o % fs.sizeOfClusterBytes : Nat)))
          (min (n - m * fs.sizeOfClusterBytes) fs.sizeOfClusterBytes : Nat) =
        slice b (s + m * fs.sizeOfClusterBytes)
          (min (n - m * fs.sizeOfClusterBytes) fs.sizeOfClusterBytes)) :
    fat16ReadInternalBy next d fs fuel start o n = some (0, slice b s n) := by
  induction fuel generalizing o s n with
  | zero => omega
  | succ fuel ih =>
    obtain ⟨c, hc, hread⟩ := hpiece 0 (by omega)
    have hnn : ¬ ((c : Nat) : Int) < 0 := by omega
    have emod : (o : Int).tmod fs.sizeOfClusterBytes =
        ((o % fs.sizeOfClusterBytes : Nat) : Int) := rfl
    rw [Nat.zero_mul, Nat.add_zero, Nat.sub_zero] at hread
    rw [Nat.zero_mul, Nat.add_zero] at hc
    rw [fat16ReadInternalBy, hc]
    dsimp only
    rw [if_neg hnn, emod]
    by_cases hbig : fs.sizeOfClusterBytes < n
    · have hn1 : 0 < n - fs.sizeOfClusterBytes := by omega
      have e1 : (n : Int) - fs.sizeOfClusterBytes = ((n - fs.sizeOfClusterBytes : Nat) : Int) := by
        omega
      have e2 : fs.sizeOfClusterBytes + (n - fs.sizeOfClusterBytes) = n := by omega
      have hrest := @ih (o + fs.sizeOfClusterBytes) (s + fs.sizeOfClusterBytes)
        (n - fs.sizeOfClusterBytes) hn1 (by omega) (by omega) fun m hm => by
          -- piece `m` of the rest is piece `m + 1`
          have emul : (m + 1) * fs.sizeOfClusterBytes =
              fs.sizeOfClusterBytes + m * fs.sizeOfClusterBytes := by
            rw [Nat.add_mul, Nat.one_mul, Nat.add_comm]
          have hm1 := hpiece (m + 1) (by omega)
          rwa [emul, ← Nat.add_assoc, ← Nat.add_assoc, ← Nat.sub_sub,
            ← Nat.add_mod_right o fs.sizeOfClusterBytes] at hm1
      rw [Nat.min_eq_right hbig.le] at hread
      rw [if_pos (Int.ofNat_lt.mpr hbig), e1, if_pos (Int.natCast_pos.mpr hn1),
        i32_add_of_lt (by omega), hread, hrest, Option.map_some, slice_append, e2]
    · rw [Nat.min_eq_left (Nat.not_lt.mp hbig)] at hread
      rw [if_neg (fun h => hbig (Int.ofNat_lt.mp h)), Int.sub_self, if_neg (by decide), hread]

/-! ## 4. One item, one call -/

/-- **`fat16_read_internal`** delivers the bytes at an offset of the file. -/
theorem fat16ReadInternal_file (hi : imageSize < 2147483648)
    (hr : Readable d fs start size imageSize) (hsz : size < 2147483648)
    (hcs : 0 < fs.sizeOfClusterBytes) {fuel o n : Nat} (hn : 0 < n) (hf : n ≤ fuel)
    (ho : o + n ≤ size) (hs : StaysInCluster d fs start o n) :
    fat16ReadInternal d fs fuel start o n = some (0, slice (fat16FileByte d fs start) o n) := by
  rw [← fat16ReadInternalBy_driver]
  refine fat16ReadInternalBy_pieces _ hcs hn hf (by omega) fun m hm => ?_
  have hdiv := Nat.add_mul_div_right o m hcs
  have hmod := Nat.add_mul_mod_self_right o m fs.sizeOfClusterBytes
  refine ⟨_, (clusterLoopBy_driver d fs _ _).trans (fat16GetClusterForOffset_chain hr (by omega)),
    ?_⟩
  have hpiece := hs m hm
  rw [← hmod, ← hdiv] at hpiece
  rw [← hmod]
  exact chunk_file hi hr hcs (Nat.min_le_right _ _) (by omega) (by omega) hpiece

/-- More calls do not change what a read delivers. -/
theorem fat16ReadInternal_mono (fuel : Nat) : ∀ {more : Nat} {cluster offset total : Int}
    {r : Int × List UInt8}, fuel ≤ more →
    fat16ReadInternal d fs fuel cluster offset total = some r →
    fat16ReadInternal d fs more cluster offset total = some r := by
  induction fuel with
  | zero =>
    intro more cluster offset total r _ h
    cases h
  | succ fuel ih =>
    intro more cluster offset total r hle h
    obtain ⟨more, rfl⟩ : ∃ m, more = m + 1 := ⟨more - 1, by omega⟩
    rw [fat16ReadInternal] at h ⊢
    dsimp only at h ⊢
    split at h
    · rename_i hneg
      rw [if_pos hneg]
      exact h
    · rename_i hneg
      rw [if_neg hneg]
      generalize
        (if (fs.sizeOfClusterBytes : Int) < total then (fs.sizeOfClusterBytes : Int) else total)
        = totalToRead at h ⊢
      split at h
      · rename_i hpos
        obtain ⟨r', hr', rfl⟩ := Option.map_eq_some_iff.mp h
        rw [if_pos hpos, ih (Nat.le_of_succ_le_succ hle) hr']
        rfl
      · rename_i hpos
        rw [if_neg hpos]
        exact h

/-- **An item of FAT16**: as many bytes as were asked for, as an `int`, or a negative code. -/
theorem fat16ReadInternal_out (fuel : Nat) :
    ∀ {cluster offset total : Int} {r : Int × List UInt8},
      fat16ReadInternal d fs fuel cluster offset total = some r →
      (r.1 = 0 ∧ r.2.length = total.toNat) ∨ r.1 < 0 := by
  induction fuel with
  | zero =>
    intro cluster offset total r hr
    cases hr
  | succ fuel ih =>
    intro cluster offset total r hr
    unfold fat16ReadInternal at hr
    dsimp only at hr
    split at hr
    · rename_i hneg
      obtain rfl := Option.some.inj hr
      exact Or.inr hneg
    have hpiece : ∃ piece : Int, (if (fs.sizeOfClusterBytes : Int) < total then
        (fs.sizeOfClusterBytes : Int) else total) = piece ∧ piece ≤ total ∧
            (piece < total → 0 ≤ piece) := by
      refine ⟨_, rfl, ?_, ?_⟩
      · split
        · omega
        · omega
      · split
        · omega
        · omega
    obtain ⟨piece, e, hle, hpos⟩ := hpiece
    rw [e] at hr
    have hlen := readAt_length d
      (i32 (fat16ClusterToSector fs (fat16GetClusterForOffset d fs cluster offset) * 512 +
        offset.tmod fs.sizeOfClusterBytes)) piece
    generalize readAt d _ piece = out at hr hlen
    split at hr
    · obtain ⟨r', hr', rfl⟩ := Option.map_eq_some_iff.mp hr
      have hrest := ih hr'
      dsimp only
      rw [List.length_append]
      omega
    · obtain rfl := Option.some.inj hr
      exact Or.inl ⟨rfl, by dsimp only; omega⟩

/-- **The items of one call**, each at the end of the one before. -/
theorem fat16ReadItems_file (hi : imageSize < 2147483648)
    (hr : Readable d fs start size imageSize) (hsz : size < 2147483648)
    (hcs : 0 < fs.sizeOfClusterBytes) {fuel n : Nat} (hn : 0 < n) (hf : n ≤ fuel) (left : Nat)
    {o : Nat} (ho : o + n * left ≤ size)
    (hs : ∀ i, i < left → StaysInCluster d fs start (o + n * i) n) :
    fat16ReadItems d fs fuel start n left o =
      some (0, slice (fat16FileByte d fs start) o (n * left)) := by
  induction left generalizing o with
  | zero => rfl
  | succ left ih =>
    have hmul : n * (left + 1) = n + n * left := by
      rw [Nat.mul_succ, Nat.add_comm]
    have e1 : i32 (n : Int) = n := i32_natCast_of_lt (by omega)
    have e2 : i32 ((o : Int) + n) = ((o + n : Nat) : Int) := i32_add_of_lt (by omega)
    have h0 := hs 0 (Nat.succ_pos left)
    rw [Nat.mul_zero, Nat.add_zero] at h0
    rw [fat16ReadItems, e1, fat16ReadInternal_file hi hr hsz hcs hn hf (by omega) h0]
    dsimp only
    rw [if_neg (by decide), e2, ih (by omega) fun i hil => ?_, Option.map_some, slice_append, hmul]
    have e3 : o + n + n * i = o + n * (i + 1) := by
      rw [Nat.mul_succ]
      omega
    rw [e3]
    exact hs (i + 1) (Nat.succ_lt_succ hil)

/-- Items of no bytes deliver none. -/
theorem fat16ReadItems_zero {fuel cluster : Nat} (hf : 0 < fuel) (left : Nat) :
    fat16ReadItems d fs fuel cluster 0 left 0 = some (0, []) := by
  have h0 : fat16ReadInternal d fs fuel cluster 0 0 = some (0, []) := by
    obtain ⟨fuel, rfl⟩ : ∃ m, fuel = m + 1 := ⟨fuel - 1, by omega⟩
    have hc : fat16GetClusterForOffset d fs cluster 0 = cluster := by
      unfold fat16GetClusterForOffset
      rw [Int.zero_tdiv]
      rfl
    have hnn : ¬ (cluster : Int) < 0 := by omega
    have hcs : ¬ (fs.sizeOfClusterBytes : Int) < 0 := by omega
    rw [fat16ReadInternal, hc]
    dsimp only
    rw [if_neg hnn, if_neg hcs, Int.sub_self, if_neg (by decide), readAt_zero]
  have e : i32 ((0 : Nat) : Int) = 0 := i32_natCast_of_lt (by decide)
  have e' : i32 ((0 : Int) + (0 : Nat)) = 0 := i32_natCast_of_lt (n := 0) (by decide)
  induction left with
  | zero => rfl
  | succ left ih =>
    rw [fat16ReadItems, e, h0]
    dsimp only
    rw [if_neg (by decide), e', ih]
    rfl

end Reading

/-! ## 4. Runs of calls -/

/-- Calls of `fat16_read` one after the other on one descriptor. -/
def fat16Reads (d : Disk) (fs : Fat16Private) (fuel : Nat) :
    List (Nat × Nat) → FatFileDescriptor → Option (List Fat16ReadResult)
  | [], _ => some []
  | (size, nmemb) :: requests, desc =>
    match fat16Read d fs fuel desc size nmemb with
    | none => none
    | some r => (fat16Reads d fs fuel requests r.descriptor).map (r :: ·)

/-- The bytes that calls deliver, in order. -/
def delivered (rs : List Fat16ReadResult) : List UInt8 := (rs.map Fat16ReadResult.out).flatten

/-- **A descriptor that behaves as a cursor**: after every call of the run, what was delivered is
    the beginning of the file, as much of it as was asked for and as the file has. -/
def CursorRun (d : Disk) (fs : Fat16Private) (fItem itemCopy : Nat) (item : DirectoryItem)
    (fuel : Nat) (requests : List (Nat × Nat)) : Prop :=
  ∃ rs, fat16Reads d fs fuel requests (.opened fItem itemCopy item) = some rs ∧
    ∀ i, delivered (rs.take i) = slice (fat16FileByte d fs (fat16GetFirstCluster item)) 0
      (min item.filesize (requestedBytes (requests.take i)))

/-- A call that asks for `size * nmemb` bytes from the beginning of the file: they are the file's,
    the driver finds their clusters, and no item runs across the end of its cluster. -/
structure CallInFile (d : Disk) (fs : Fat16Private) (item : DirectoryItem) (imageSize : Nat)
    (q : Nat × Nat) : Prop where
  inFile : q.1 * q.2 ≤ item.filesize
  fits : q.1 * q.2 < 2147483648
  readable : Readable d fs (fat16GetFirstCluster item) (q.1 * q.2) imageSize
  pieces : ∀ i, i < q.2 → StaysInCluster d fs (fat16GetFirstCluster item) (q.1 * i) q.1

/-- Every call of a run asks for nothing, or is the first that asks for bytes and lies in the file;
    `asked` is what the calls before asked for. -/
def CallsOk (d : Disk) (fs : Fat16Private) (item : DirectoryItem) (imageSize : Nat) :
    (asked : Nat) → List (Nat × Nat) → Prop
  | _, [] => True
  | asked, q :: requests =>
    (q.1 * q.2 = 0 ∨ (asked = 0 ∧ CallInFile d fs item imageSize q)) ∧
      CallsOk d fs item imageSize (asked + q.1 * q.2) requests

section Runs

variable {d : Disk} {fs : Fat16Private} {fItem itemCopy : Nat} {item : DirectoryItem}
  {imageSize fuel : Nat}

/-- A call on a file just opened. -/
theorem fat16Read_opened (size nmemb : Nat) :
    fat16Read d fs fuel (.opened fItem itemCopy item) size nmemb =
      (fat16ReadItems d fs fuel (fat16GetFirstCluster item) size nmemb (i32 ((0 : Nat) : Int))).map
        fun r => ⟨if r.1 < 0 then r.1 else i32 nmemb, r.2, .opened fItem itemCopy item⟩ :=
  rfl

/-- A call that asks for nothing. -/
theorem fat16Read_nothing (hf : 0 < fuel) {size nmemb : Nat} (h : size * nmemb = 0) :
    fat16Read d fs fuel (.opened fItem itemCopy item) size nmemb =
      some ⟨i32 nmemb, [], .opened fItem itemCopy item⟩ := by
  have e : i32 ((0 : Nat) : Int) = 0 := i32_natCast_of_lt (by decide)
  have hitems : fat16ReadItems d fs fuel (fat16GetFirstCluster item) size nmemb 0 =
      some (0, []) := by
    rcases Nat.mul_eq_zero.mp h with rfl | rfl
    · exact fat16ReadItems_zero hf nmemb
    · rfl
  rw [fat16Read_opened, e, hitems, Option.map_some]
  dsimp only
  rw [if_neg (by decide)]

/-- A call from the beginning of the file. -/
theorem fat16Read_inFile (hi : imageSize < 2147483648) (hcs : 0 < fs.sizeOfClusterBytes)
    {size nmemb : Nat} (hq : CallInFile d fs item imageSize (size, nmemb)) (hs : 0 < size)
    (hf : size ≤ fuel) :
    fat16Read d fs fuel (.opened fItem itemCopy item) size nmemb = some ⟨i32 nmemb,
      slice (fat16FileByte d fs (fat16GetFirstCluster item)) 0 (size * nmemb),
      .opened fItem itemCopy item⟩ := by
  have e : i32 ((0 : Nat) : Int) = ((0 : Nat) : Int) := i32_natCast_of_lt (by decide)
  have hitems := fat16ReadItems_file (o := 0) hi hq.readable hq.fits hcs hs hf nmemb (by simp)
    fun i hil => by
      rw [Nat.zero_add]
      exact hq.pieces i hil
  rw [fat16Read_opened, e, hitems, Option.map_some]
  dsimp only
  rw [if_neg (by decide)]

theorem callsOk_le {asked : Nat} {requests : List (Nat × Nat)}
    (h : CallsOk d fs item imageSize asked requests) (ha : asked ≤ item.filesize) (i : Nat) :
    asked + requestedBytes (requests.take i) ≤ item.filesize := by
  induction requests generalizing asked i with
  | nil => simpa using ha
  | cons q requests ih =>
    cases i with
    | zero => simpa using ha
    | succ i =>
      have hq : asked + q.1 * q.2 ≤ item.filesize := by
        rcases h.1 with h0 | ⟨h0, hin⟩
        · omega
        · have := hin.inFile
          omega
      have := ih h.2 hq i
      rw [List.take_succ_cons, requestedBytes_cons]
      omega

theorem fat16Reads_from (hi : imageSize < 2147483648) (hcs : 0 < fs.sizeOfClusterBytes)
    (hf : 0 < fuel) {asked : Nat} {requests : List (Nat × Nat)}
    (hq : ∀ q ∈ requests, q.1 ≤ fuel) (h : CallsOk d fs item imageSize asked requests) :
    ∃ rs, fat16Reads d fs fuel requests (.opened fItem itemCopy item) = some rs ∧
      ∀ i, delivered (rs.take i) = slice (fat16FileByte d fs (fat16GetFirstCluster item)) asked
        (requestedBytes (requests.take i)) := by
  induction requests generalizing asked with
  | nil => exact ⟨[], rfl, fun i => by simp [delivered]⟩
  | cons q requests ih =>
    obtain ⟨size, nmemb⟩ := q
    obtain ⟨rs, hrs, hall⟩ := ih (fun q hm => hq q (List.mem_cons_of_mem _ hm)) h.2
    -- the call delivers the bytes at `asked`: none, or the first ones of the file
    obtain ⟨r, hcall, hout, hdesc⟩ :
        ∃ r, fat16Read d fs fuel (.opened fItem itemCopy item) size nmemb = some r ∧
        r.out = slice (fat16FileByte d fs (fat16GetFirstCluster item)) asked (size * nmemb) ∧
        r.descriptor = .opened fItem itemCopy item := by
      by_cases h0 : size * nmemb = 0
      · refine ⟨_, fat16Read_nothing hf h0, ?_, rfl⟩
        rw [h0, slice_zero]
      · obtain ⟨rfl, hin⟩ := h.1.resolve_left h0
        have hs : 0 < size := Nat.pos_of_ne_zero fun e => h0 (by rw [e, Nat.zero_mul])
        exact ⟨_, fat16Read_inFile hi hcs hin hs (hq _ List.mem_cons_self), rfl, rfl⟩
    refine ⟨r :: rs, ?_, ?_⟩
    · rw [fat16Reads, hcall]
      dsimp only
      rw [hdesc, hrs, Option.map_some]
    · intro i
      cases i with
      | zero => simp [delivered]
      | succ i =>
        have hrest := hall i
        unfold delivered at hrest ⊢
        rw [List.take_succ_cons, List.map_cons, List.flatten_cons, hrest, hout, List.take_succ_cons,
          requestedBytes_cons]
        exact slice_append _ _ _ _

end Runs

/-- **Runs of `fat16_read` on which a descriptor is a cursor**: at most one call of the run asks for
    bytes, and that call lies in the file and does not run across cluster ends. -/
theorem fat16Reads_cursor {d : Disk} {fs : Fat16Private} {fItem itemCopy : Nat}
    {item : DirectoryItem} {imageSize fuel : Nat} (hi : imageSize < 2147483648)
    (hcs : 0 < fs.sizeOfClusterBytes) (hf : 0 < fuel) {requests : List (Nat × Nat)}
    (hq : ∀ q ∈ requests, q.1 ≤ fuel) (h : CallsOk d fs item imageSize 0 requests) :
    CursorRun d fs fItem itemCopy item fuel requests := by
  obtain ⟨rs, hrs, hall⟩ := fat16Reads_from hi hcs hf hq h
  refine ⟨rs, hrs, fun i => ?_⟩
  have hle := callsOk_le h (Nat.zero_le _) i
  rw [Nat.zero_add] at hle
  rw [hall i, Nat.min_eq_right hle]

/-- A FAT16 volume with one file `A` of 2 bytes in cluster 2: sectors of 512 bytes, one for
    a cluster; the FAT in sector 1, the root directory in sector 2, the data from sector 3 on. -/
def smallFat16 : Disk where
  byte i :=
    match i with
    | 13 => 1
    | 14 => 1
    | 16 => 1
    | 17 => 16
    | 22 => 1
    | 38 => 0x29
    | 1024 => 0x41
    | 1050 => 2
    | 1052 => 2
    | 1536 => 0x58
    | 1537 => 0x59
    | _ => if i < 1024 then 0 else if i < 1035 then 0x20 else if i < 1536 then 0 else 0x5A
  beside _ := 0

/-- The file's directory item. -/
def smallItem : DirectoryItem := directoryItemAt smallFat16.byte 1024

theorem smallFat16_size : (fat16Private smallFat16).sizeOfClusterBytes = 512 := by
  decide +kernel

/-- A run on the file with one call that asks for bytes, for two items of one byte. -/
theorem fat16Reads_cursor_small :
    CursorRun smallFat16 (fat16Private smallFat16) 4096 8192 smallItem 5
      [(0, 3), (1, 2), (5, 0)] := by
  have hcall : CallInFile smallFat16 (fat16Private smallFat16) smallItem 2048 (1, 2) := by
    refine ⟨by decide +kernel, by decide, ⟨fun j hj => ?_, fun j hj => ?_⟩, fun i hi m hm => ?_⟩
    · rw [smallFat16_size] at hj
      omega
    · rw [smallFat16_size] at hj
      have hj0 : j = 0 := by omega
      subst hj0
      decide +kernel
    · rw [smallFat16_size] at hm ⊢
      exact Or.inl (by omega)
  refine fat16Reads_cursor (by decide) ?_ (by decide) (by decide)
    ⟨Or.inl (by decide), Or.inr ⟨by decide, hcall⟩, Or.inl (by decide), trivial⟩
  rw [smallFat16_size]
  decide

/-- A call leaves the descriptor as it was. -/
theorem fat16Read_descriptor {d : Disk} {fs : Fat16Private} {fuel size nmemb : Nat}
    {desc : FatFileDescriptor} {r : Fat16ReadResult}
    (h : fat16Read d fs fuel desc size nmemb = some r) : r.descriptor = desc := by
  unfold fat16Read at h
  split at h
  · obtain ⟨x, -, rfl⟩ := Option.map_eq_some_iff.mp h
    rfl
  · cases h

/-- The same call twice gives the same result twice. -/
theorem fat16Reads_twice {d : Disk} {fs : Fat16Private} {fuel size nmemb : Nat}
    {desc : FatFileDescriptor} {rs : List Fat16ReadResult}
    (h : fat16Reads d fs fuel [(size, nmemb), (size, nmemb)] desc = some rs) :
    ∃ r, rs = [r, r] := by
  rw [fat16Reads] at h
  cases hr : fat16Read d fs fuel desc size nmemb with
  | none =>
    rw [hr] at h
    cases h
  | some r =>
    rw [hr] at h
    dsimp only at h
    rw [fat16Read_descriptor hr, fat16Reads, hr] at h
    cases h
    exact ⟨r, rfl⟩

/-- **Two calls for one byte each** deliver the first byte twice; one call for 3 bytes delivers 3
    bytes of a file that has 2. -/
theorem fat16Reads_repeats :
    (fat16ReadHeader smallFat16).signature = 0x29 ∧ smallItem.filesize = 2 ∧
    (∀ fItem itemCopy fuel,
      ¬ CursorRun smallFat16 (fat16Private smallFat16) fItem itemCopy smallItem fuel
        [(1, 1), (1, 1)]) ∧
    (fat16Reads smallFat16 (fat16Private smallFat16) 1 [(1, 1), (1, 1)]
      (.opened 4096 8192 smallItem)).map delivered = some [0x58, 0x58] ∧
    (fat16Reads smallFat16 (fat16Private smallFat16) 1 [(2, 1)] (.opened 4096 8192 smallItem)).map
      delivered = some [0x58, 0x59] ∧
    (fat16Reads smallFat16 (fat16Private smallFat16) 1 [(3, 1)] (.opened 4096 8192 smallItem)).map
      delivered = some [0x58, 0x59, 0x5A] := by
  refine ⟨by decide +kernel, by decide +kernel, ?_, by decide +kernel, by decide +kernel,
    by decide +kernel⟩
  rintro fItem itemCopy fuel ⟨rs, hrs, hall⟩
  obtain ⟨r, rfl⟩ := fat16Reads_twice hrs
  have hfile : slice (fat16FileByte smallFat16 (fat16Private smallFat16)
      (fat16GetFirstCluster smallItem)) 0 (min smallItem.filesize
        (requestedBytes ([(1, 1), (1, 1)].take 2))) = [0x58, 0x59] := by
    decide +kernel
  have htwice : r.out ++ r.out = [0x58, 0x59] := by
    rw [← hfile, ← hall 2]
    simp [delivered]
  have hlen := congrArg List.length htwice
  rw [List.length_append] at hlen
  obtain ⟨x, hx⟩ := List.length_eq_one_iff.mp (show r.out.length = 1 by simp at hlen; omega)
  rw [hx] at htwice
  simp at htwice
  rw [htwice.1] at htwice
  exact absurd htwice.2 (by decide)

end PeachKernel
