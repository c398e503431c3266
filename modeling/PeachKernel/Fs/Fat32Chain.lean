/-
  File:      PeachKernel/Fs/Fat32Chain.lean
  Subject:   The clusters the FAT32 driver visits, against the chain that the FAT stores.

  The FAT stores a link in the low 28 bits of an entry, and eight values of them end a chain. The
  driver compares all 32 bits with one of the eight, and returns the link through a `uint8_t`.

  * `fatNext` -- the link that the FAT stores;
  * `visitNext` -- the link that the driver follows, by `get_next_cluster_id`;
  * `readInternal_visits`, `findInDirectory_visits` -- the two loops that follow it;
  * `visits_chain_iff` -- the driver visits the stored chain if and only if every entry on it is
    `0x0FFFFFF8` or links to a cluster below 256.
-/
import PeachKernel.Fs.Fat32Cursor
import PeachKernel.Lib.Follow

namespace PeachKernel

open CInt Mem

/-! ## 1. The stored chain -/

/-- The entry that the FAT holds for a cluster. -/
def fatEntry (d : Disk) (fs : Fat32Private) (clusterId : Nat) : Nat :=
  load32 d.byte (fs.entryPos clusterId)

/-- The link in the low 28 bits of the entry; `0x0FFFFFF8` and above end the chain. -/
def fatNext (d : Disk) (fs : Fat32Private) (clusterId : Nat) : Option Nat :=
  let link := fatEntry d fs clusterId &&& 0x0FFFFFFF
  if 0x0FFFFFF8 ≤ link then none else some link

/-- The chain from `start` is well formed: sectors have a size the format allows, cluster numbers
    have 28 bits, and no entry on the chain is free (0) or reserved (1). -/
structure WellFormedChain (d : Disk) (fs : Fat32Private) (start : Nat) : Prop where
  sector_le : fs.header.bytesPerSector.toNat ≤ 4096
  start_lt : start < 268435456
  links : ∀ k c, follow (fatNext d fs) start k = some c → 2 ≤ fatEntry d fs c &&& 0x0FFFFFFF

theorem and_link (v : Nat) : v &&& 0x0FFFFFFF = v % 268435456 :=
  Nat.and_two_pow_sub_one_eq_mod v 28

theorem fatNext_lt {d : Disk} {fs : Fat32Private} {c c' : Nat} (h : fatNext d fs c = some c') :
    c' < 268435456 := by
  unfold fatNext at h
  dsimp only at h
  split at h
  · cases h
  · cases h
    rw [and_link]
    exact Nat.mod_lt _ (by decide)

theorem WellFormedChain.cluster_lt {d : Disk} {fs : Fat32Private} {start : Nat}
    (h : WellFormedChain d fs start) {k c : Nat} (hk : follow (fatNext d fs) start k = some c) :
    c < 268435456 := by
  cases k with
  | zero =>
    cases hk
    exact h.start_lt
  | succ k =>
    rw [follow_succ] at hk
    obtain ⟨b, -, hb⟩ := Option.bind_eq_some_iff.mp hk
    exact fatNext_lt hb

/-! ## 2. The link the driver follows -/

/-- The next cluster, by the driver; the result 0 ends the chain. -/
def visitNext (d : Disk) (fs : Fat32Private) (clusterId : Nat) : Option Nat :=
  let next := getNextClusterId d fs clusterId
  if next = 0 then none else some next

theorem visitNext_of_zero {d : Disk} {fs : Fat32Private} {c : Nat}
    (h : getNextClusterId d fs c = 0) : visitNext d fs c = none := by
  unfold visitNext
  rw [if_pos h]

theorem visitNext_of_ne {d : Disk} {fs : Fat32Private} {c : Nat}
    (h : getNextClusterId d fs c ≠ 0) : visitNext d fs c = some (getNextClusterId d fs c) := by
  unfold visitNext
  rw [if_neg h]

/-- `get_cluster_value` reads the entry, for a FAT that lies below 2 GiB. -/
theorem getClusterValue_eq {d : Disk} {fs : Fat32Private} {c : Nat}
    (h : fs.entryPos c + 4 < 2147483648) : getClusterValue d fs c = fatEntry d fs c := by
  have e : u32 (fs.entryPos c : Int) = fs.entryPos c := u32_natCast_of_lt (by omega)
  unfold getClusterValue fatEntry load32
  rw [e, seekRead_eq d h, bytesMem_slice _ (by decide), bytesMem_slice _ (by decide),
    bytesMem_slice _ (by decide), bytesMem_slice _ (by decide)]
  rfl

theorem entryPos_lt {fs : Fat32Private} {c : Nat} (hs : fs.header.bytesPerSector.toNat ≤ 4096)
    (hc : c < 268435456) : fs.entryPos c + 4 < 2147483648 := by
  have h1 := fs.header.reservedSectors.toNat_lt
  have h2 : fs.header.bytesPerSector.toNat * fs.header.reservedSectors.toNat ≤ 4096 * 65535 :=
    Nat.mul_le_mul hs (by omega)
  unfold Fat32Private.entryPos
  omega

/-- **Where the driver's link is the stored one**: at the one end marker it knows, and where the
    link fits its 8 bits. -/
theorem visitNext_eq_iff {d : Disk} {fs : Fat32Private} {c : Nat}
    (hpos : fs.entryPos c + 4 < 2147483648) (hl : 2 ≤ fatEntry d fs c &&& 0x0FFFFFFF) :
    visitNext d fs c = fatNext d fs c ↔
      fatEntry d fs c = 0x0FFFFFF8 ∨ fatEntry d fs c &&& 0x0FFFFFFF < 256 := by
  unfold visitNext fatNext getNextClusterId
  dsimp only
  rw [getClusterValue_eq hpos]
  rw [and_link] at *
  generalize fatEntry d fs c = v at *
  have e8 : u8 ((v % 268435456 : Nat) : Int) = v % 268435456 % 256 := by
    unfold u8
    omega
  rw [e8]
  by_cases hv : v = 0x0FFFFFF8
  · subst hv
    decide
  · rw [if_neg hv]
    by_cases he : 0x0FFFFFF8 ≤ v % 268435456
    · -- an end marker the driver does not know: its last byte is not 0
      rw [if_pos he, if_neg (by omega)]
      simp only [reduceCtorEq, false_iff]
      omega
    · rw [if_neg he]
      by_cases h0 : v % 268435456 % 256 = 0
      · rw [if_pos h0]
        simp only [reduceCtorEq, false_iff]
        omega
      · rw [if_neg h0, Option.some_inj]
        omega

/-! ## 3. The loops that follow it -/

section Visits

variable {d : Disk} {fs : Fat32Private}

theorem follow_visitNext_some {c q : Nat}
    (h : ∀ j, 0 < j → j ≤ q → (getNextClusterId d fs)^[j] c ≠ 0) :
    follow (visitNext d fs) c q = some ((getNextClusterId d fs)^[q] c) := by
  induction q with
  | zero => rfl
  | succ q ih =>
    have hq := h (q + 1) (Nat.succ_pos q) le_rfl
    rw [follow_next (ih fun j h1 h2 => h j h1 (by omega))]
    rw [Function.iterate_succ_apply'] at hq ⊢
    exact visitNext_of_ne hq

/-- The last number may be the 0 that ends the chain. -/
theorem follow_visitNext_getD {c q : Nat}
    (h : ∀ j, 0 < j → j < q → (getNextClusterId d fs)^[j] c ≠ 0) :
    (follow (visitNext d fs) c q).getD 0 = (getNextClusterId d fs)^[q] c := by
  cases q with
  | zero => rfl
  | succ q =>
    rw [follow_next (follow_visitNext_some fun j h1 h2 => h j h1 (by omega)),
      Function.iterate_succ_apply']
    by_cases h0 : getNextClusterId d fs ((getNextClusterId d fs)^[q] c) = 0
    · rw [visitNext_of_zero h0, h0, Option.getD_none]
    · rw [visitNext_of_ne h0, Option.getD_some]

/-- **`fat32_read_internal` stands on the chain it follows**: `n` bytes after the place `i` of the
    chain it is as many clusters further as `n` bytes pass cluster ends. -/
theorem readInternal_visits {start i fuel left : Nat} {h : FileHandle} {r : ReadResult}
    (hc : Cursor fs h) (hi : follow (visitNext d fs) start i = some h.currentCluster)
    (hr : fat32ReadInternal d fs fuel left h = some r) :
    ∃ n, r.handle.filePos = h.filePos + n ∧
      r.handle.currentCluster = (follow (visitNext d fs) start
        (i + (h.positionInCluster + n) / fs.clusterSizeBytes)).getD 0 := by
  obtain ⟨n, -, -, -, hm, -, hz⟩ := fat32ReadInternal_moved hc hr
  refine ⟨n, by rw [hm]; rfl, ?_⟩
  rw [hm, follow_add hi, follow_visitNext_getD hz]
  rfl

theorem findInDirectory_last {mem : Mem} {name : List UInt8} {fuel c : Nat}
    (hs : scanCluster mem d fs name c = .full) (h0 : getNextClusterId d fs c = 0) :
    findInDirectory mem d fs name (fuel + 1) c = some none := by
  rw [findInDirectory, hs]
  dsimp only
  rw [if_pos h0]

theorem findInDirectory_next {mem : Mem} {name : List UInt8} {fuel c : Nat}
    (hs : scanCluster mem d fs name c = .full) (h0 : getNextClusterId d fs c ≠ 0) :
    findInDirectory mem d fs name (fuel + 1) c =
      findInDirectory mem d fs name fuel (getNextClusterId d fs c) := by
  rw [findInDirectory, hs]
  dsimp only
  rw [if_neg h0]

/-- **The search in a directory stands on the chain it follows**: behind `n` clusters without the
    item and without an end it goes on at place `n` of the chain, or ends with it. -/
theorem findInDirectory_visits (mem : Mem) (name : List UInt8) (fuel n : Nat) {start : Nat}
    (h : ∀ j, j < n → ∃ c, follow (visitNext d fs) start j = some c ∧
      scanCluster mem d fs name c = .full) :
    findInDirectory mem d fs name (fuel + n) start =
      (follow (visitNext d fs) start n).elim (some none)
        (findInDirectory mem d fs name fuel) := by
  induction n generalizing start with
  | zero => rfl
  | succ n ih =>
    obtain ⟨c, hc, hs⟩ := h 0 (Nat.succ_pos n)
    have hc : start = c := Option.some.inj hc
    subst hc
    rw [← Nat.add_assoc]
    by_cases h0 : getNextClusterId d fs start = 0
    · -- the chain ends here, so this was the last cluster of the premise
      have hnone : follow (visitNext d fs) start 1 = none := by
        rw [follow_one, visitNext_of_zero h0]
      have hn : n = 0 := by
        rcases Nat.eq_zero_or_pos n with e | hn
        · exact e
        · obtain ⟨c, hc, -⟩ := h 1 (Nat.succ_lt_succ hn)
          rw [hnone] at hc
          cases hc
      subst hn
      rw [findInDirectory_last hs h0, Nat.zero_add, hnone, Option.elim_none]
    · have hsome : follow (visitNext d fs) start 1 = some (getNextClusterId d fs start) := by
        rw [follow_one, visitNext_of_ne h0]
      rw [findInDirectory_next hs h0, Nat.add_comm n 1, follow_add hsome]
      refine ih fun j hj => ?_
      rw [← follow_add hsome, Nat.add_comm 1 j]
      exact h (j + 1) (Nat.succ_lt_succ hj)

/-! ## 4. The chain as stored -/

/-- **The clusters that the two loops visit are the chain stored in the FAT** if and only if every
    entry on that chain is `0x0FFFFFF8`, with its upper 4 bits clear, or links to a cluster below
    256. -/
theorem visits_chain_iff {start : Nat} (hw : WellFormedChain d fs start) :
    (∀ (h : FileHandle) (i fuel left : Nat) (r : ReadResult), Cursor fs h →
      follow (visitNext d fs) start i = some h.currentCluster →
      fat32ReadInternal d fs fuel left h = some r →
      ∃ n, r.handle.filePos = h.filePos + n ∧
        r.handle.currentCluster = (follow (visitNext d fs) start
          (i + (h.positionInCluster + n) / fs.clusterSizeBytes)).getD 0) ∧
    (∀ (mem : Mem) (name : List UInt8) (fuel n : Nat),
      (∀ j, j < n → ∃ c, follow (visitNext d fs) start j = some c ∧
        scanCluster mem d fs name c = .full) →
      findInDirectory mem d fs name (fuel + n) start =
        (follow (visitNext d fs) start n).elim (some none)
          (findInDirectory mem d fs name fuel)) ∧
    ((∀ k, follow (visitNext d fs) start k = follow (fatNext d fs) start k) ↔
      ∀ k c, follow (fatNext d fs) start k = some c →
        fatEntry d fs c = 0x0FFFFFF8 ∨ fatEntry d fs c &&& 0x0FFFFFFF < 256) := by
  refine ⟨fun h i fuel left r hc hi hr => readInternal_visits hc hi hr,
    fun mem name fuel n hn => findInDirectory_visits mem name fuel n hn, ?_⟩
  rw [follow_agree_iff]
  refine forall_congr' fun k => forall_congr' fun c => imp_congr_right fun hk => ?_
  exact visitNext_eq_iff (entryPos_lt hw.sector_le (hw.cluster_lt hk)) (hw.links k c hk)

end Visits

/-- A small volume: sectors of 512 bytes, one for a cluster; the header in sector 0, the FAT (entry
    `c` is `fat c`) in sector 1, the data from sector 2 on, with the root directory first. -/
def smallVolume (fat : Nat → Nat) (data : Nat → UInt8) : Disk where
  byte i :=
    if i < 512 then
      match i with
      | 12 => 2
      | 13 => 1
      | 14 => 1
      | 16 => 1
      | 36 => 1
      | 44 => 2
      | 66 => 0x29
      | _ => 0
    else if i < 1024 then wordByte (fat ((i - 512) / 4)) (i % 4)
    else data (i - 1024)
  beside _ := 0

/-- The kernel before it has allocated anything. -/
def bootKernel : Kernel := ⟨kernelHeap fun _ => 0, fun _ => 0⟩

/-- The private data of a small volume: the buffer is the third block of the heap. -/
def smallPrivate : Fat32Private := ⟨⟨512, 1, 1, 1, 1, 2, 0x29⟩, 0x01002000, 512⟩

/-- A file in two clusters, `3 → 5`, ended as the driver expects. -/
def shortChain : Nat → Nat
  | 3 => 5
  | 5 => 0x0FFFFFF8
  | _ => 0

theorem visits_chain_iff_small :
    (fat32Resolve bootKernel (smallVolume shortChain fun _ => 0)).2.1 = some smallPrivate ∧
    ∀ k, follow (visitNext (smallVolume shortChain fun _ => 0) smallPrivate) 3 k =
      follow (fatNext (smallVolume shortChain fun _ => 0) smallPrivate) 3 k := by
  have h2 : follow (fatNext (smallVolume shortChain fun _ => 0) smallPrivate) 3 2 = none := by
    decide +kernel
  have hall : ∀ k c, follow (fatNext (smallVolume shortChain fun _ => 0) smallPrivate) 3 k =
      some c → c = 3 ∨ c = 5 := by
    intro k c hk
    match k with
    | 0 =>
      cases hk
      exact Or.inl rfl
    | 1 =>
      have e : follow (fatNext (smallVolume shortChain fun _ => 0) smallPrivate) 3 1 = some 5 := by
        decide +kernel
      rw [e] at hk
      cases hk
      exact Or.inr rfl
    | k + 2 =>
      rw [follow_past h2 (by omega)] at hk
      cases hk
  have hw : WellFormedChain (smallVolume shortChain fun _ => 0) smallPrivate 3 := by
    refine ⟨by decide, by decide, fun k c hk => ?_⟩
    rcases hall k c hk with rfl | rfl <;> decide +kernel
  refine ⟨by decide +kernel, (visits_chain_iff hw).2.2.mpr fun k c hk => ?_⟩
  rcases hall k c hk with rfl | rfl <;> decide +kernel

/-- The end marker that many formatters write. -/
def strayMarker : Nat → Nat
  | 3 => 0x0FFFFFFF
  | _ => 0

/-- **A file of one cluster that ends with `0x0FFFFFFF`**: the driver goes on at cluster 255. -/
theorem visits_chain_stray_marker :
    (fat32Resolve bootKernel (smallVolume strayMarker fun _ => 0)).2.1 = some smallPrivate ∧
    WellFormedChain (smallVolume strayMarker fun _ => 0) smallPrivate 3 ∧
    follow (fatNext (smallVolume strayMarker fun _ => 0) smallPrivate) 3 1 = none ∧
    follow (visitNext (smallVolume strayMarker fun _ => 0) smallPrivate) 3 1 = some 255 ∧
    ¬ ∀ k, follow (visitNext (smallVolume strayMarker fun _ => 0) smallPrivate) 3 k =
      follow (fatNext (smallVolume strayMarker fun _ => 0) smallPrivate) 3 k := by
  have h1 : follow (fatNext (smallVolume strayMarker fun _ => 0) smallPrivate) 3 1 = none := by
    decide +kernel
  have h2 : follow (visitNext (smallVolume strayMarker fun _ => 0) smallPrivate) 3 1 =
      some 255 := by
    decide +kernel
  refine ⟨by decide +kernel, ⟨by decide, by decide, fun k c hk => ?_⟩, h1, h2, fun h => ?_⟩
  · match k with
    | 0 =>
      cases hk
      decide +kernel
    | k + 1 =>
      rw [follow_past h1 (by omega)] at hk
      cases hk
  · have := h 1
    rw [h1, h2] at this
    cases this

end PeachKernel
