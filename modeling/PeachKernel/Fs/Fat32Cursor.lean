/-
  File:      PeachKernel/Fs/Fat32Cursor.lean
  Subject:   A FAT32 file handle as a cursor over its cluster chain.

  A handle keeps its place three times: in the file, in the cluster, and as the cluster. Reading
  moves all three.

  * `Cursor` -- the handles on which the loops of the driver make progress;
  * `FileHandle.moved` -- the handle `n` bytes further along the chain, whatever the clusters are;
  * `fat32ReadInternal_step` -- one turn of the loop of `fat32_read_internal` as such a move;
  * `fat32ReadInternal_moved` -- what any call of it leaves behind.
-/
import PeachKernel.Fs.Fat32
import Mathlib.Logic.Function.Iterate

namespace PeachKernel

open CInt Mem

/-! ## 1. Mounted disks -/

/-- **What `fat32_resolve` accepts**: the private data is read off the disk. -/
theorem fat32Resolve_some {k : Kernel} {d : Disk} {fs : Fat32Private}
    (h : (fat32Resolve k d).2.1 = some fs) :
    fs.header = readHeader d ∧ fs.header.bsBootSig = 0x29 ∧
      fs.clusterSizeBytes = fs.header.bytesPerSector.toNat * fs.header.sectorsPerCluster.toNat := by
  unfold fat32Resolve at h
  dsimp only at h
  split at h
  · cases h
  · split at h
    · cases h
    · next hsig =>
      split at h
      · cases h
      · cases h
        exact ⟨rfl, not_not.mp hsig, rfl⟩

/-- A cluster has less than 16 MiB. -/
theorem fat32Resolve_size_lt {k : Kernel} {d : Disk} {fs : Fat32Private}
    (h : (fat32Resolve k d).2.1 = some fs) : fs.clusterSizeBytes < 16777216 := by
  have h1 := fs.header.bytesPerSector.toNat_lt
  have h2 := fs.header.sectorsPerCluster.toNat_lt
  have h3 : fs.header.bytesPerSector.toNat * fs.header.sectorsPerCluster.toNat ≤ 65535 * 255 :=
    Nat.mul_le_mul (by omega) (by omega)
  rw [(fat32Resolve_some h).2.2]
  omega

/-! ## 2. Moving a handle -/

/-- A handle whose place in the cluster lies inside it, and whose place in the file does too. -/
structure Cursor (fs : Fat32Private) (h : FileHandle) : Prop where
  size_lt : fs.clusterSizeBytes < 16777216
  inCluster : h.positionInCluster < fs.clusterSizeBytes
  pos_le : h.filePos ≤ h.fileSize
  fileSize_lt : h.fileSize < 4294967296

/-- The handle `n` bytes further. -/
def FileHandle.moved (d : Disk) (fs : Fat32Private) (h : FileHandle) (n : Nat) : FileHandle :=
  { h with
    filePos := h.filePos + n
    positionInCluster := (h.positionInCluster + n) % fs.clusterSizeBytes
    currentCluster :=
      (getNextClusterId d fs)^[(h.positionInCluster + n) / fs.clusterSizeBytes] h.currentCluster }

section Moving

variable {d : Disk} {fs : Fat32Private} {h : FileHandle}

theorem Cursor.size_pos (hc : Cursor fs h) : 0 < fs.clusterSizeBytes := by
  have := hc.inCluster
  omega

/-- A cluster's size fits the driver's `uint32_t` arithmetic. -/
theorem Cursor.size_lt_word (hc : Cursor fs h) : fs.clusterSizeBytes < 4294967296 := by
  have := hc.size_lt
  omega

@[simp] theorem moved_filePos (n : Nat) : (h.moved d fs n).filePos = h.filePos + n := rfl

@[simp] theorem moved_fileSize (n : Nat) : (h.moved d fs n).fileSize = h.fileSize := rfl

@[simp] theorem moved_positionInCluster (n : Nat) : (h.moved d fs n).positionInCluster =
    (h.positionInCluster + n) % fs.clusterSizeBytes := rfl

theorem moved_zero (hc : Cursor fs h) : h.moved d fs 0 = h := by
  unfold FileHandle.moved
  rw [Nat.add_zero, Nat.add_zero, Nat.mod_eq_of_lt hc.inCluster, Nat.div_eq_of_lt hc.inCluster]
  rfl

/-- Moving on from a place that was itself moved to. -/
theorem moved_moved (m n : Nat) : (h.moved d fs m).moved d fs n = h.moved d fs (m + n) := by
  rcases Nat.eq_zero_or_pos fs.clusterSizeBytes with h0 | h0
  · unfold FileHandle.moved
    simp only [h0, Nat.mod_zero, Nat.div_zero, Nat.add_assoc]
    rfl
  · have e : h.positionInCluster + (m + n) =
        fs.clusterSizeBytes * ((h.positionInCluster + m) / fs.clusterSizeBytes) +
          ((h.positionInCluster + m) % fs.clusterSizeBytes + n) := by
      rw [← Nat.add_assoc, ← Nat.add_assoc, Nat.div_add_mod]
    have hmod : (h.positionInCluster + (m + n)) % fs.clusterSizeBytes =
        ((h.positionInCluster + m) % fs.clusterSizeBytes + n) % fs.clusterSizeBytes := by
      rw [e, Nat.mul_add_mod]
    have hdiv : (h.positionInCluster + (m + n)) / fs.clusterSizeBytes =
        ((h.positionInCluster + m) % fs.clusterSizeBytes + n) / fs.clusterSizeBytes +
          (h.positionInCluster + m) / fs.clusterSizeBytes := by
      rw [e, Nat.mul_add_div h0, Nat.add_comm]
    unfold FileHandle.moved
    simp only [hmod, hdiv, Function.iterate_add_apply, Nat.add_assoc]

/-- A moved handle is a cursor as long as the file reaches so far. -/
theorem Cursor.moved (hc : Cursor fs h) {n : Nat} (hn : h.filePos + n ≤ h.fileSize) :
    Cursor fs (h.moved d fs n) where
  size_lt := hc.size_lt
  inCluster := Nat.mod_lt _ hc.size_pos
  pos_le := hn
  fileSize_lt := hc.fileSize_lt

/-- At the end of its cluster a handle stands at the beginning of the next one. -/
theorem moved_to_cluster_end (hc : Cursor fs h) {n : Nat}
    (hn : h.positionInCluster + n = fs.clusterSizeBytes) :
    (h.moved d fs n).positionInCluster = 0 ∧
      (h.moved d fs n).currentCluster = getNextClusterId d fs h.currentCluster := by
  constructor
  · rw [moved_positionInCluster, hn, Nat.mod_self]
  · unfold FileHandle.moved
    rw [hn, Nat.div_self hc.size_pos, Function.iterate_one]

/-- Inside one cluster the code's own step is such a move. -/
theorem advance_eq_moved (hc : Cursor fs h) {n : Nat}
    (hn : h.positionInCluster + n ≤ fs.clusterSizeBytes) (hf : h.filePos + n ≤ h.fileSize) :
    h.advance d fs n = h.moved d fs n := by
  have ef : u32 ((h.filePos : Int) + n) = h.filePos + n :=
    u32_add_of_lt (lt_of_le_of_lt hf hc.fileSize_lt)
  have ep : u32 ((h.positionInCluster : Int) + n) = h.positionInCluster + n :=
    u32_add_of_lt (lt_of_le_of_lt hn hc.size_lt_word)
  unfold FileHandle.advance FileHandle.moved
  dsimp only
  rw [ef, ep]
  by_cases he : h.positionInCluster + n = fs.clusterSizeBytes
  · rw [if_pos he, he, Nat.mod_self, Nat.div_self hc.size_pos, Function.iterate_one]
  · rw [if_neg he, Nat.mod_eq_of_lt (by omega), Nat.div_eq_of_lt (by omega)]
    rfl

/-! ## 3. One turn of the read loop -/

/-- The bytes one turn takes. -/
def turnLength (fs : Fat32Private) (h : FileHandle) (left : Nat) : Nat :=
  min (min (fs.clusterSizeBytes - h.positionInCluster) (h.fileSize - h.filePos)) left

theorem howManyToRead_eq (hc : Cursor fs h) (left : Nat) :
    howManyToRead fs h left = turnLength fs h left := by
  have e1 : u32 ((fs.clusterSizeBytes : Int) - h.positionInCluster) =
      fs.clusterSizeBytes - h.positionInCluster :=
    u32_sub_of_le (Nat.le_of_lt hc.inCluster) hc.size_lt_word
  have e2 : u32 ((h.fileSize : Int) - h.filePos) = h.fileSize - h.filePos :=
    u32_sub_of_le hc.pos_le hc.fileSize_lt
  unfold howManyToRead turnLength
  rw [e1, e2]

theorem turnLength_le (hc : Cursor fs h) (left : Nat) :
    turnLength fs h left ≤ left ∧ h.filePos + turnLength fs h left ≤ h.fileSize ∧
      h.positionInCluster + turnLength fs h left ≤ fs.clusterSizeBytes := by
  have h2 := hc.inCluster
  have h3 := hc.pos_le
  unfold turnLength
  omega

/-- A turn takes a byte where one is wanted and one is there. -/
theorem turnLength_pos (hc : Cursor fs h) {left : Nat} (hl : 0 < left)
    (hf : h.filePos ≠ h.fileSize) : 0 < turnLength fs h left := by
  have h2 := hc.inCluster
  have h3 := hc.pos_le
  unfold turnLength
  omega

/-- A turn that ends neither the request nor the file goes to the end of the cluster. -/
theorem turn_to_cluster_end (hc : Cursor fs h) {left : Nat} (hl : turnLength fs h left ≠ left)
    (hf : h.filePos + turnLength fs h left ≠ h.fileSize) :
    h.positionInCluster + turnLength fs h left = fs.clusterSizeBytes := by
  have h2 := hc.inCluster
  have h3 := hc.pos_le
  unfold turnLength at *
  omega

/-- The bytes a turn delivers. -/
def turnOut (d : Disk) (fs : Fat32Private) (h : FileHandle) (n : Nat) : List UInt8 :=
  seekRead d (u32 ((getClusterDataDiskPos fs h.currentCluster : Int) + h.positionInCluster)) n

/-- **One turn of `fat32_read_internal`.** -/
theorem fat32ReadInternal_step (hc : Cursor fs h) (fuel left : Nat) :
    fat32ReadInternal d fs (fuel + 1) left h =
      if turnLength fs h left = left then
        some ⟨1, turnOut d fs h (turnLength fs h left), h.moved d fs (turnLength fs h left)⟩
      else if h.filePos + turnLength fs h left = h.fileSize ∨
          (h.moved d fs (turnLength fs h left)).currentCluster = 0 then
        some ⟨0, turnOut d fs h (turnLength fs h left), h.moved d fs (turnLength fs h left)⟩
      else
        (fat32ReadInternal d fs fuel (left - turnLength fs h left)
          (h.moved d fs (turnLength fs h left))).map fun r =>
            { r with out := turnOut d fs h (turnLength fs h left) ++ r.out } := by
  obtain ⟨h1, h2, h3⟩ := turnLength_le hc left
  have e0 : left - turnLength fs h left = 0 ↔ turnLength fs h left = left := by omega
  rw [fat32ReadInternal, howManyToRead_eq hc, advance_eq_moved hc h3 h2]
  simp only [e0, ite_or]
  rfl

/-! ## 4. Whole calls -/

/-- How a call that took `n` of `left` bytes ends: complete, or short for one of two reasons. -/
def EndsWith (h : FileHandle) (left n : Nat) (r : ReadResult) : Prop :=
  (r.status = 1 ∧ n = left) ∨
  (r.status = 0 ∧ n < left ∧ (h.filePos + n = h.fileSize ∨ r.handle.currentCluster = 0))

/-- **A call of `fat32_read_internal` moves the handle** by the bytes it took. It stops at the first
    cluster number 0. -/
theorem fat32ReadInternal_moved {fuel left : Nat} {r : ReadResult} (hc : Cursor fs h)
    (hr : fat32ReadInternal d fs fuel left h = some r) :
    ∃ n, turnLength fs h left ≤ n ∧ n ≤ left ∧ h.filePos + n ≤ h.fileSize ∧
      r.handle = h.moved d fs n ∧ EndsWith h left n r ∧
      ∀ j, 0 < j → j < (h.positionInCluster + n) / fs.clusterSizeBytes →
        (getNextClusterId d fs)^[j] h.currentCluster ≠ 0 := by
  induction fuel generalizing left h r with
  | zero => cases hr
  | succ fuel ih =>
    obtain ⟨h1, h2, h3⟩ := turnLength_le hc left
    have hone : ∀ j, 0 < j →
        ¬ j < (h.positionInCluster + turnLength fs h left) / fs.clusterSizeBytes := by
      intro j hj hlt
      have := Nat.div_le_div_right (c := fs.clusterSizeBytes) h3
      rw [Nat.div_self hc.size_pos] at this
      omega
    rw [fat32ReadInternal_step hc] at hr
    split at hr
    · next he =>
      cases hr
      exact ⟨_, le_rfl, h1, h2, rfl, Or.inl ⟨rfl, he⟩, fun j hj hlt => absurd hlt (hone j hj)⟩
    · next hne =>
      split at hr
      · next he =>
        cases hr
        exact ⟨_, le_rfl, h1, h2, rfl, Or.inr ⟨rfl, by omega, he⟩,
          fun j hj hlt => absurd hlt (hone j hj)⟩
      · next hgo =>
        -- neither the request nor the file ended, so the turn went to the end of the cluster
        obtain ⟨hf, hcl⟩ := not_or.mp hgo
        have hend := turn_to_cluster_end hc hne hf
        obtain ⟨r', hr', rfl⟩ := Option.map_eq_some_iff.mp hr
        obtain ⟨n, -, hn1, hn2, hm, he, hz⟩ := ih (hc.moved h2) hr'
        rw [moved_filePos, moved_fileSize] at hn2
        refine ⟨turnLength fs h left + n, by omega, by omega, by omega, ?_, ?_, ?_⟩
        · rw [← moved_moved]
          exact hm
        · rcases he with ⟨e1, e2⟩ | ⟨e1, e2, e3⟩
          · exact Or.inl ⟨e1, by omega⟩
          · refine Or.inr ⟨e1, by omega, e3.imp_left fun e => ?_⟩
            rw [moved_filePos, moved_fileSize] at e
            omega
        · intro j hj hlt
          obtain ⟨e0, ec⟩ := moved_to_cluster_end (d := d) hc hend
          rw [e0, Nat.zero_add, ec] at hz
          rw [ec] at hcl
          rw [← Nat.add_assoc, hend, Nat.add_div_left _ hc.size_pos] at hlt
          obtain ⟨i, rfl⟩ : ∃ i, j = i + 1 := ⟨j - 1, by omega⟩
          rw [Function.iterate_succ_apply]
          rcases Nat.eq_zero_or_pos i with rfl | hi
          · rwa [Function.iterate_zero, id_eq]
          · exact hz i hi (by omega)

/-- **A call returns**: every turn but the last takes a byte. -/
theorem fat32ReadInternal_isSome {fuel left : Nat} (hc : Cursor fs h) (h0 : 0 < fuel)
    (hl : left ≤ fuel) : (fat32ReadInternal d fs fuel left h).isSome := by
  induction fuel generalizing left h with
  | zero => omega
  | succ fuel ih =>
    obtain ⟨h1, h2, h3⟩ := turnLength_le hc left
    rw [fat32ReadInternal_step hc]
    split
    · rfl
    · next hne =>
      split
      · rfl
      · next hgo =>
        obtain ⟨hf, -⟩ := not_or.mp hgo
        have hpos : 0 < turnLength fs h left := by
          refine turnLength_pos hc (by omega) fun e => hf ?_
          omega
        rw [Option.isSome_map]
        exact ih (hc.moved h2) (by omega) (by omega)

/-- **A call of `fat32_read` moves the handle**, and past the end of the file it does not go. -/
theorem readItems_moved {fuel size left : Nat} {done : Int} {r : ReadResult} (hc : Cursor fs h)
    (hr : readItems d fs fuel size left done h = some r) :
    ∃ n, h.filePos + n ≤ h.fileSize ∧ r.handle = h.moved d fs n ∧
      (0 < left → 0 < size → h.filePos < h.fileSize → 0 < n) := by
  induction left generalizing h done r with
  | zero =>
    cases hr
    exact ⟨0, hc.pos_le, (moved_zero hc).symm, fun h0 => absurd h0 (Nat.lt_irrefl 0)⟩
  | succ left ih =>
    rw [readItems] at hr
    cases hb : fat32ReadInternal d fs fuel size h with
    | none =>
      rw [hb] at hr
      cases hr
    | some block =>
      obtain ⟨n, hn1, -, hn2, hm, -, -⟩ := fat32ReadInternal_moved hc hb
      have hpos : 0 < size → h.filePos < h.fileSize → 0 < n := fun h1 h2 =>
        lt_of_lt_of_le (turnLength_pos hc h1 (Nat.ne_of_lt h2)) hn1
      rw [hb] at hr
      dsimp only at hr
      split at hr
      · cases hr
        exact ⟨n, hn2, hm, fun _ => hpos⟩
      · obtain ⟨r', hr', rfl⟩ := Option.map_eq_some_iff.mp hr
        rw [hm] at hr'
        obtain ⟨m, hm1, hm2, -⟩ := ih (hc.moved hn2) hr'
        refine ⟨n + m, ?_, ?_, fun _ h1 h2 => by have := hpos h1 h2; omega⟩
        · rw [moved_filePos, moved_fileSize] at hm1
          omega
        · rw [← moved_moved]
          exact hm2

/-- **A call of `fat32_read` returns**, whatever the chain is. -/
theorem readItems_isSome {fuel size : Nat} (left : Nat) {done : Int} (hc : Cursor fs h)
    (h0 : 0 < fuel) (hl : size ≤ fuel) : (readItems d fs fuel size left done h).isSome := by
  induction left generalizing h done with
  | zero => rfl
  | succ left ih =>
    obtain ⟨block, hb⟩ := Option.isSome_iff_exists.mp (fat32ReadInternal_isSome (d := d) hc h0 hl)
    obtain ⟨n, -, -, hn, hm, -, -⟩ := fat32ReadInternal_moved hc hb
    rw [readItems, hb]
    dsimp only
    split
    · rfl
    · rw [Option.isSome_map, hm]
      exact ih (hc.moved hn)

end Moving

end PeachKernel
