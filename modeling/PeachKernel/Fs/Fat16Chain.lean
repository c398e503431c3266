/-
  File:      PeachKernel/Fs/Fat16Chain.lean
  Subject:   `fat16_read_internal` on a chain of clusters: where on the disk its bytes come from.

  The next cluster of a cluster is a GIVEN function here (`fat16ReadInternalBy`), in the place of
  `fat16_get_fat_entry`; the driver's own reads are the case of that function. The recursion reads
  pieces of a cluster's length, each from the offset inside its cluster at which the call started,
  so a piece that does not start at the cluster's first byte runs on behind the cluster's end.

  * `chainBy`, `chainByteBy` -- the chain that the next function gives, and its bytes one after the
    other;
  * `piecePos`, `readBy_pieces` -- where the bytes come from that a call delivers, for every chain;
  * `ReadsChain` -- the call delivers the bytes of the chain, whatever the disk holds;
  * `PiecesStay`, `readsChain_iff` -- this is so exactly when every piece ends inside its cluster,
    or the next cluster of the chain is also the next one on the disk;
  * `fat16ReadInternal_fragmented` -- one byte of a chain 2, 5 is read from cluster 3.
-/
import PeachKernel.Fs.Fat16Read

namespace PeachKernel

open CInt Mem

/-! ## 1. Chains -/

/-- The `j`-th cluster of the chain from `start`. -/
def chainBy (next : Int → Nat) (start j : Nat) : Nat := (fun c : Nat => next c)^[j] start

/-- **A chain of at least `size` bytes**: none of its links is a stop value, and its clusters lie
    inside an image of `imageSize` bytes. -/
structure ChainOn (next : Int → Nat) (fs : Fat16Private) (start size imageSize : Nat) : Prop where
  links : ∀ j, (j + 1) * fs.sizeOfClusterBytes < size →
    fat16Stops (chainBy next start (j + 1)) = false
  inside : ∀ j, j * fs.sizeOfClusterBytes < size →
    0 ≤ fat16DataPos fs (chainBy next start j) ∧
      fat16DataPos fs (chainBy next start j) + fs.sizeOfClusterBytes ≤ imageSize

/-- Where byte `i` of a cluster is on the disk. -/
def clusterPos (fs : Fat16Private) (cluster i : Nat) : Nat := (fat16DataPos fs cluster).toNat + i

/-- Where byte `k` of the concatenated clusters of the chain is on the disk. -/
def chainPosBy (next : Int → Nat) (fs : Fat16Private) (start : Nat) : Nat → Nat :=
  pieced (fun j i => clusterPos fs (chainBy next start j) i) fs.sizeOfClusterBytes

/-- Byte `k` of the concatenated clusters of the chain. -/
def chainByteBy (next : Int → Nat) (d : Disk) (fs : Fat16Private) (start k : Nat) : UInt8 :=
  d.byte (chainPosBy next fs start k)

/-- Where the byte comes from that a call at `offset` delivers as its `k`-th: piece `m` is read from
    the cluster that many links ahead, always from the same offset inside the cluster. -/
def piecePos (next : Int → Nat) (fs : Fat16Private) (start offset : Nat) : Nat → Nat :=
  pieced (fun m i => clusterPos fs (chainBy next start (offset / fs.sizeOfClusterBytes + m))
    (offset % fs.sizeOfClusterBytes + i)) fs.sizeOfClusterBytes

section Reading

variable {next : Int → Nat} {d : Disk} {fs : Fat16Private} {start size imageSize : Nat}

theorem chainBy_succ (start j : Nat) : chainBy next (next start) j = chainBy next start (j + 1) :=
  rfl

theorem clusterLoopBy_chain {n : Nat}
    (h : ∀ j, j < n → fat16Stops (chainBy next start (j + 1)) = false) :
    clusterLoopBy next n start = chainBy next start n := by
  induction n generalizing start with
  | zero => rfl
  | succ n ih =>
    have h0 : fat16Stops (next start) = false := h 0 (Nat.succ_pos n)
    rw [clusterLoopBy, h0, if_neg (by decide), ih fun j hj => ?_, chainBy_succ]
    rw [chainBy_succ]
    exact h (j + 1) (Nat.succ_lt_succ hj)

/-- The cluster of an offset inside the chain. -/
theorem fat16GetClusterForOffsetBy_chain (hr : ChainOn next fs start size imageSize) {o : Nat}
    (ho : o < size) : fat16GetClusterForOffsetBy next fs start o =
      chainBy next start (o / fs.sizeOfClusterBytes) := by
  have e : ((o : Int).tdiv fs.sizeOfClusterBytes).toNat = o / fs.sizeOfClusterBytes := rfl
  unfold fat16GetClusterForOffsetBy
  dsimp only
  rw [e]
  refine clusterLoopBy_chain fun j hj => hr.links j (lt_of_le_of_lt ?_ ho)
  exact le_trans (Nat.mul_le_mul_right _ hj) (Nat.div_mul_le_self _ _)

/-- **One piece** is read from its cluster on, over the cluster's end if it is long enough. -/
theorem readAt_piece (hi : imageSize + fs.sizeOfClusterBytes < 2147483648)
    (hr : ChainOn next fs start size imageSize) (hcs : 0 < fs.sizeOfClusterBytes) {o n : Nat}
    (ho : o < size) (hn : n ≤ fs.sizeOfClusterBytes) :
    readAt d (i32 (fat16ClusterToSector fs (chainBy next start (o / fs.sizeOfClusterBytes) : Nat) *
        512 + (o % fs.sizeOfClusterBytes : Nat))) n =
      slice (fun k => d.byte (piecePos next fs start o k)) 0 n := by
  have hmod := Nat.mod_lt o hcs
  obtain ⟨h1, h2⟩ := hr.inside (o / fs.sizeOfClusterBytes)
    (lt_of_le_of_lt (Nat.div_mul_le_self _ _) ho)
  have hlt : fat16DataPos fs (chainBy next start (o / fs.sizeOfClusterBytes)) +
      (o % fs.sizeOfClusterBytes : Nat) < 2147483648 := by omega
  have epos : i32 (fat16ClusterToSector fs (chainBy next start (o / fs.sizeOfClusterBytes) : Nat) *
      512 + (o % fs.sizeOfClusterBytes : Nat)) =
      (((fat16DataPos fs (chainBy next start (o / fs.sizeOfClusterBytes))).toNat +
        o % fs.sizeOfClusterBytes : Nat) : Int) := startingPos_eq h1 hlt
  rw [epos, readAt_eq d (by omega)]
  refine slice_congr fun i hin => ?_
  unfold piecePos
  rw [pieced_of_lt _ (by rw [Nat.zero_mod]; omega), Nat.zero_div, Nat.zero_mod, Nat.zero_add,
    Nat.add_zero, clusterPos, Nat.add_assoc]

/-- The pieces behind the first `m`. -/
theorem piecePos_rest (hcs : 0 < fs.sizeOfClusterBytes) (o m k : Nat) :
    piecePos next fs start (o + m * fs.sizeOfClusterBytes) k =
      piecePos next fs start o (m * fs.sizeOfClusterBytes + k) := by
  have e : o / fs.sizeOfClusterBytes + m + k / fs.sizeOfClusterBytes =
      o / fs.sizeOfClusterBytes + (k / fs.sizeOfClusterBytes + m) := by omega
  unfold piecePos pieced
  dsimp only
  rw [Nat.add_mul_div_right _ _ hcs, Nat.add_mul_mod_self_right, Nat.add_comm (m * _) k,
    Nat.add_mul_div_right _ _ hcs, Nat.add_mul_mod_self_right, e]

/-- **What a call delivers**, for every chain and every offset. -/
theorem readBy_pieces (hi : imageSize + fs.sizeOfClusterBytes < 2147483648)
    (hr : ChainOn next fs start size imageSize) (hsz : size < 2147483648)
    (hcs : 0 < fs.sizeOfClusterBytes) {fuel o n : Nat} (hn : 0 < n) (hf : n ≤ fuel)
    (ho : o + n ≤ size) :
    fat16ReadInternalBy next d fs fuel start o n =
      some (0, slice (fun k => d.byte (piecePos next fs start o k)) 0 n) := by
  refine fat16ReadInternalBy_pieces _ hcs hn hf (by omega) fun m hm =>
    ⟨_, fat16GetClusterForOffsetBy_chain hr (by omega), ?_⟩
  rw [← Nat.add_mul_mod_self_right o m fs.sizeOfClusterBytes,
    readAt_piece hi hr hcs (by omega) (Nat.min_le_right _ _)]
  refine slice_congr fun i _ => ?_
  rw [Nat.zero_add, Nat.zero_add, piecePos_rest hcs]

/-! ## 2. When these are the bytes of the chain -/

/-- **The property**: with any disk, and enough fuel, the call delivers the bytes of the chain. -/
def ReadsChain (next : Int → Nat) (fs : Fat16Private) (start offset total : Nat) : Prop :=
  ∀ (d : Disk) (fuel : Nat), total ≤ fuel →
    fat16ReadInternalBy next d fs fuel start offset total =
      some (0, slice (chainByteBy next d fs start) offset total)

/-- **The condition**: every piece of the call ends inside its cluster, or the next cluster of the
    chain is also the next one on the disk. -/
def PiecesStay (next : Int → Nat) (fs : Fat16Private) (start offset total : Nat) : Prop :=
  ∀ m, m * fs.sizeOfClusterBytes < total →
    offset % fs.sizeOfClusterBytes + min (total - m * fs.sizeOfClusterBytes) fs.sizeOfClusterBytes ≤
      fs.sizeOfClusterBytes ∨
    chainBy next start (offset / fs.sizeOfClusterBytes + m + 1) =
      chainBy next start (offset / fs.sizeOfClusterBytes + m) + 1

/-- Inside its cluster a piece is read from where the chain is. -/
theorem piecePos_inside (o : Nat) {m i : Nat}
    (h : o % fs.sizeOfClusterBytes + i < fs.sizeOfClusterBytes) :
    piecePos next fs start o (fs.sizeOfClusterBytes * m + i) =
      chainPosBy next fs start (o + (fs.sizeOfClusterBytes * m + i)) := by
  have e : o + (fs.sizeOfClusterBytes * m + i) = fs.sizeOfClusterBytes *
      (o / fs.sizeOfClusterBytes + m) + (o % fs.sizeOfClusterBytes + i) := by
    have := Nat.div_add_mod o fs.sizeOfClusterBytes
    rw [Nat.mul_add]
    omega
  unfold piecePos chainPosBy
  rw [e, pieced_block _ (by omega), pieced_block _ h]

/-- Behind the end of its cluster a piece is read from the next cluster on the disk, and the chain
    goes on in its next cluster. -/
theorem piecePos_behind (next : Int → Nat) (start o : Nat) {m i : Nat}
    (h1 : fs.sizeOfClusterBytes ≤ o % fs.sizeOfClusterBytes + i) (h2 : i < fs.sizeOfClusterBytes)
    (hmod : o % fs.sizeOfClusterBytes < fs.sizeOfClusterBytes) :
    piecePos next fs start o (fs.sizeOfClusterBytes * m + i) =
      clusterPos fs (chainBy next start (o / fs.sizeOfClusterBytes + m))
        (o % fs.sizeOfClusterBytes + i) ∧
    chainPosBy next fs start (o + (fs.sizeOfClusterBytes * m + i)) =
      clusterPos fs (chainBy next start (o / fs.sizeOfClusterBytes + m + 1))
        (o % fs.sizeOfClusterBytes + i - fs.sizeOfClusterBytes) := by
  have e : o + (fs.sizeOfClusterBytes * m + i) = fs.sizeOfClusterBytes *
      (o / fs.sizeOfClusterBytes + m + 1) +
        (o % fs.sizeOfClusterBytes + i - fs.sizeOfClusterBytes) := by
    have := Nat.div_add_mod o fs.sizeOfClusterBytes
    rw [Nat.mul_add, Nat.mul_add, Nat.mul_one]
    omega
  unfold piecePos chainPosBy
  rw [e, pieced_block _ h2, pieced_block _ (by omega)]
  exact ⟨rfl, rfl⟩

/-- Two clusters next to each other on the disk. -/
theorem clusterPos_adjacent_iff (hcs : 0 < fs.sizeOfClusterBytes) {c c' i : Nat}
    (h0 : 0 ≤ fat16DataPos fs c) (h0' : 0 ≤ fat16DataPos fs c') (hi : fs.sizeOfClusterBytes ≤ i) :
    clusterPos fs c i = clusterPos fs c' (i - fs.sizeOfClusterBytes) ↔ c' = c + 1 := by
  unfold clusterPos
  constructor
  · intro h
    have hd : fat16DataPos fs c' = fat16DataPos fs (c + 1) := by
      rw [fat16DataPos_succ]
      omega
    have hs : 0 < fs.header.sectorsPerCluster.toNat := by
      unfold Fat16Private.sizeOfClusterBytes at hcs
      omega
    have hm : ((c' : Int) - 2) * fs.header.sectorsPerCluster.toNat =
        (((c + 1 : Nat) : Int) - 2) * fs.header.sectorsPerCluster.toNat := by
      unfold fat16DataPos at hd
      omega
    have := Int.eq_of_mul_eq_mul_right (by omega) hm
    omega
  · intro h
    rw [h, fat16DataPos_succ]
    omega

/-- The positions agree exactly under the condition. -/
theorem positions_iff (hr : ChainOn next fs start size imageSize) (hcs : 0 < fs.sizeOfClusterBytes)
    {o n : Nat} (ho : o + n ≤ size) :
    (∀ k, k < n → piecePos next fs start o k = chainPosBy next fs start (o + k)) ↔
      PiecesStay next fs start o n := by
  have hmod := Nat.mod_lt o hcs
  have hdm := Nat.div_add_mod o fs.sizeOfClusterBytes
  -- the cluster behind a piece that crosses its end still belongs to the chain
  have hadj : ∀ m i, fs.sizeOfClusterBytes * m + i < n → i < fs.sizeOfClusterBytes →
      fs.sizeOfClusterBytes ≤ o % fs.sizeOfClusterBytes + i →
      (piecePos next fs start o (fs.sizeOfClusterBytes * m + i) =
        chainPosBy next fs start (o + (fs.sizeOfClusterBytes * m + i)) ↔
      chainBy next start (o / fs.sizeOfClusterBytes + m + 1) =
        chainBy next start (o / fs.sizeOfClusterBytes + m) + 1) := by
    intro m i hk hi hb
    obtain ⟨e1, e2⟩ := piecePos_behind next start o (m := m) hb hi hmod
    have hin1 : (o / fs.sizeOfClusterBytes + m) * fs.sizeOfClusterBytes < size := by
      rw [Nat.mul_comm, Nat.mul_add]
      omega
    have hin2 : (o / fs.sizeOfClusterBytes + m + 1) * fs.sizeOfClusterBytes < size := by
      rw [Nat.mul_comm, Nat.mul_add, Nat.mul_add, Nat.mul_one]
      omega
    rw [e1, e2]
    exact clusterPos_adjacent_iff hcs (hr.inside _ hin1).1 (hr.inside _ hin2).1 hb
  constructor
  · intro h m hm
    by_cases hstay : o % fs.sizeOfClusterBytes +
        min (n - m * fs.sizeOfClusterBytes) fs.sizeOfClusterBytes ≤ fs.sizeOfClusterBytes
    · exact Or.inl hstay
    · -- the first byte behind the end of the cluster
      refine Or.inr ?_
      have hk : fs.sizeOfClusterBytes * m +
          (fs.sizeOfClusterBytes - o % fs.sizeOfClusterBytes) < n := by
        rw [Nat.mul_comm]
        omega
      exact (hadj m _ hk (by omega) (by omega)).mp (h _ hk)
  · intro h k hk
    have hkd := Nat.div_add_mod k fs.sizeOfClusterBytes
    have hkm := Nat.mod_lt k hcs
    rw [← hkd]
    by_cases hin : o % fs.sizeOfClusterBytes + k % fs.sizeOfClusterBytes < fs.sizeOfClusterBytes
    · exact piecePos_inside o hin
    · refine (hadj _ _ (by omega) hkm (by omega)).mpr ?_
      have hm : k / fs.sizeOfClusterBytes * fs.sizeOfClusterBytes < n := by
        rw [Nat.mul_comm]
        omega
      refine (h (k / fs.sizeOfClusterBytes) hm).resolve_left ?_
      rw [Nat.mul_comm]
      omega

/-- The disk with a 1 at one position, and 0 elsewhere. -/
def markDisk (p : Nat) : Disk := ⟨fun i => if i = p then 1 else 0, fun _ => 0⟩

/-- **The bytes are those of the chain exactly under the condition.** -/
theorem readsChain_iff (hi : imageSize + fs.sizeOfClusterBytes < 2147483648)
    (hr : ChainOn next fs start size imageSize) (hsz : size < 2147483648)
    (hcs : 0 < fs.sizeOfClusterBytes) {o n : Nat} (hn : 0 < n) (ho : o + n ≤ size) :
    ReadsChain next fs start o n ↔ PiecesStay next fs start o n := by
  rw [← positions_iff hr hcs ho]
  constructor
  · intro h k hk
    -- a disk that holds a 1 only where the call finds its byte `k`
    have hd := h (markDisk (piecePos next fs start o k)) n le_rfl
    rw [readBy_pieces hi hr hsz hcs hn le_rfl ho] at hd
    have hs := congrArg (fun l : List UInt8 => l.getD k 0)
      (Prod.mk.inj (Option.some.inj hd)).2
    simp only [slice_getD _ _ hk, chainByteBy, markDisk, Nat.zero_add] at hs
    by_contra hne
    rw [if_pos trivial, if_neg (Ne.symm hne)] at hs
    exact absurd hs (by decide)
  · intro h d fuel hf
    rw [readBy_pieces hi hr hsz hcs hn hf ho]
    congr 2
    refine slice_congr fun k hk => ?_
    rw [Nat.zero_add, h k hk]
    rfl

end Reading

/-- **`fat16_read_internal` on a chain**: it terminates and delivers the bytes of the chain,
    whatever the disk holds, exactly when every piece ends inside its cluster or goes on in the next
    one of the chain. With the driver's own FAT entries for the chain, these are the bytes of the
    driver. -/
theorem fat16ReadInternal_chain_iff {next : Int → Nat} {fs : Fat16Private}
    {start offset total imageSize : Nat} (hcs : 0 < fs.sizeOfClusterBytes) (ht : 1 ≤ total)
    (hr : ChainOn next fs start (offset + total) imageSize)
    (hi : imageSize + fs.sizeOfClusterBytes < 2147483648) (hsz : offset + total < 2147483648) :
    (ReadsChain next fs start offset total ↔ PiecesStay next fs start offset total) ∧
    ∀ d fuel, total ≤ fuel → next = fat16GetFatEntry d fs → PiecesStay next fs start offset total →
      fat16ReadInternal d fs fuel start offset total =
        some (0, slice (chainByteBy next d fs start) offset total) := by
  have hiff := readsChain_iff hi hr hsz hcs ht le_rfl
  refine ⟨hiff, fun d fuel hf hn hs => ?_⟩
  rw [← fat16ReadInternalBy_driver, ← hn]
  exact hiff.mpr hs d fuel hf

/-! ## 3. A fragmented file -/

/-- Sectors of 512 bytes, one for a cluster; the data area starts at sector 3. -/
def fragmentedFs : Fat16Private := ⟨⟨1, 1, 1, 16, 1, 0x29⟩, 3⟩

/-- The file in the clusters 2 and 5. -/
def fragmentedNext (cluster : Int) : Nat := if cluster = 2 then 5 else 0xFFF

theorem fragmented_chain (j : Nat) (hj : j < 2) :
    chainBy fragmentedNext 2 j = if j = 0 then 2 else 5 := by
  rcases j with _ | _ | j
  · rfl
  · rfl
  · omega

theorem fragmented_chainOn : ChainOn fragmentedNext fragmentedFs 2 513 4096 := by
  have hcs : fragmentedFs.sizeOfClusterBytes = 512 := rfl
  refine ⟨fun j hj => ?_, fun j hj => ?_⟩
  · rw [hcs] at hj
    rw [fragmented_chain (j + 1) (by omega), if_neg (Nat.succ_ne_zero j)]
    decide
  · rw [hcs] at hj
    rw [fragmented_chain j (by omega)]
    rcases j with _ | j
    · decide
    · rw [if_neg (Nat.succ_ne_zero j)]
      decide

/-- From its first byte on the file is read across its fragments. -/
theorem fat16ReadInternal_chain_iff_aligned : ReadsChain fragmentedNext fragmentedFs 2 0 513 := by
  refine ((fat16ReadInternal_chain_iff (by decide) (by decide) fragmented_chainOn (by decide)
    (by decide)).1).mpr fun m hm => Or.inl ?_
  have hcs : fragmentedFs.sizeOfClusterBytes = 512 := rfl
  rw [hcs] at hm ⊢
  omega

/-- **From its second byte on it is not**: 512 bytes are read as one piece, and the last of them is
    the first byte of cluster 3, not of cluster 5. -/
theorem fat16ReadInternal_fragmented : ChainOn fragmentedNext fragmentedFs 2 (1 + 512) 4096 ∧
    piecePos fragmentedNext fragmentedFs 2 1 511 = clusterPos fragmentedFs 3 0 ∧
    ¬ ReadsChain fragmentedNext fragmentedFs 2 1 512 := by
  have hcs : fragmentedFs.sizeOfClusterBytes = 512 := rfl
  refine ⟨fragmented_chainOn, by decide, fun h => ?_⟩
  have hs := (readsChain_iff (by decide) fragmented_chainOn (by decide) (by decide) (by decide)
    (by decide)).mp h 0 (by decide)
  rw [hcs] at hs
  rcases hs with hs | hs
  · omega
  · rw [fragmented_chain 1 (by decide), fragmented_chain 0 (by decide)] at hs
    exact absurd hs (by decide)

end PeachKernel
