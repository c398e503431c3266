/-
  File:      PeachKernel/Fs/Fat32Read.lean
  Subject:   Reading a FAT32 file: any sequence of `fat32_read` calls delivers the file from its
             beginning, in order.

  * `chainCluster`, `chainByte` -- the clusters of a file as `get_next_cluster_id` gives them, and
    the bytes of their data, one cluster after the other;
  * `ChainInside` -- the clusters that the file's size needs exist and lie inside the image;
  * `fat32ReadInternal_chain`, `readItems_chain` -- one item, and one call;
  * `fat32Reads_chain` -- a sequence of calls on an opened file.
-/
import PeachKernel.Fs.Fat32Chain

namespace PeachKernel

open CInt Mem

/-! ## 1. Opened files -/

theorem scanItems_found {buf : Mem} {clusterSize : Nat} {name : List UInt8} {left itemOffset : Nat}
    {item : DirectoryItem} (h : scanItems buf clusterSize name left itemOffset = .found item) :
    0 < clusterSize ∧ ∃ o, item = directoryItemAt buf o := by
  induction left generalizing itemOffset with
  | zero => cases h
  | succ left ih =>
    rw [scanItems] at h
    split at h
    · cases h
    · next ho =>
      dsimp only at h
      split at h
      · cases h
      · split at h
        · cases h
          exact ⟨by omega, itemOffset, rfl⟩
        · exact ih h

theorem findInDirectory_found {mem : Mem} {d : Disk} {fs : Fat32Private} {name : List UInt8}
    {fuel c : Nat} {item : DirectoryItem}
    (h : findInDirectory mem d fs name fuel c = some (some item)) :
    0 < fs.clusterSizeBytes ∧ ∃ buf o, item = directoryItemAt buf o := by
  induction fuel generalizing c with
  | zero => cases h
  | succ fuel ih =>
    rw [findInDirectory] at h
    split at h
    · next hs =>
      cases h
      obtain ⟨h0, o, ho⟩ := scanItems_found hs
      exact ⟨h0, _, o, ho⟩
    · cases h
    · dsimp only at h
      split at h
      · cases h
      · exact ih h

theorem pathLoop_item {mem : Mem} {d : Disk} {fs : Fat32Private} {fuel c : Nat}
    {part : List UInt8} {next : List (List UInt8)} {item : DirectoryItem}
    (h : pathLoop mem d fs fuel c part next = some item) :
    item = DirectoryItem.zero ∨
    (0 < fs.clusterSizeBytes ∧ ∃ buf o, item = directoryItemAt buf o) := by
  induction next generalizing c part with
  | nil =>
    unfold pathLoop at h
    split at h
    · cases h
    · cases h
      exact Or.inl rfl
    · next hf =>
      cases h
      exact Or.inr (findInDirectory_found hf)
  | cons part' next ih =>
    unfold pathLoop at h
    split at h
    · cases h
    · cases h
      exact Or.inl rfl
    · dsimp only at h
      split at h
      · exact ih h
      · cases h
        exact Or.inl rfl

/-- **What `fat32_open` returns**: a handle at the beginning of the file, and clusters are not
    empty. -/
theorem fat32Open_ok {k k' : Kernel} {d : Disk} {fs : Fat32Private} {fuel ptr : Nat}
    {part : List UInt8} {next : List (List UInt8)} {mode : FileMode} {h : FileHandle}
    (ho : fat32Open k d fs fuel part next mode = some (.ok (ptr, h), k')) :
    0 < fs.clusterSizeBytes ∧ h.filePos = 0 ∧ h.positionInCluster = 0 ∧
      h.currentCluster = h.startingCluster ∧ h.fileSize < 4294967296 := by
  unfold fat32Open at ho
  split at ho
  · cases ho
  · split at ho
    · cases ho
    · next item hi =>
      split at ho
      · cases ho
      · next hz =>
        dsimp only at ho
        split at ho
        · cases ho
        · obtain ⟨h0, buf, o, e⟩ := (pathLoop_item hi).resolve_left fun e => hz (by rw [e]; rfl)
          cases ho
          refine ⟨h0, rfl, rfl, rfl, ?_⟩
          subst e
          exact load32_lt buf _

theorem cursor_of_open {k₁ k₂ k₃ : Kernel} {d : Disk} {fs : Fat32Private} {fuel ptr : Nat}
    {part : List UInt8} {next : List (List UInt8)} {mode : FileMode} {h : FileHandle}
    (hr : (fat32Resolve k₁ d).2.1 = some fs)
    (ho : fat32Open k₂ d fs fuel part next mode = some (.ok (ptr, h), k₃)) : Cursor fs h := by
  obtain ⟨h0, h1, h2, -, h4⟩ := fat32Open_ok ho
  exact ⟨fat32Resolve_size_lt hr, by omega, by omega, h4⟩

/-! ## 2. The bytes of a chain -/

/-- The `k`-th cluster of the chain from `start`. -/
def chainCluster (d : Disk) (fs : Fat32Private) (start k : Nat) : Nat :=
  (getNextClusterId d fs)^[k] start

/-- Byte `i` of a cluster's data. -/
def clusterByte (d : Disk) (fs : Fat32Private) (clusterId i : Nat) : UInt8 :=
  d.byte ((fs.dataPos clusterId).toNat + i)

/-- Byte `i` of the data of the chain, cluster after cluster. -/
def chainByte (d : Disk) (fs : Fat32Private) (start : Nat) : Nat → UInt8 :=
  pieced (fun j => clusterByte d fs (chainCluster d fs start j)) fs.clusterSizeBytes

/-- The clusters that hold the first `fileSize` bytes are there, and their data lies inside an image
    of `imageSize` bytes. -/
def ChainInside (d : Disk) (fs : Fat32Private) (start fileSize imageSize : Nat) : Prop :=
  ∀ k, k * fs.clusterSizeBytes < fileSize → chainCluster d fs start k ≠ 0 ∧
    0 ≤ fs.dataPos (chainCluster d fs start k) ∧
    fs.dataPos (chainCluster d fs start k) + fs.clusterSizeBytes ≤ imageSize

section Chain

variable {d : Disk} {fs : Fat32Private} {h : FileHandle} {imageSize : Nat}

theorem moved_currentCluster (h0 : h.positionInCluster = 0) (p : Nat) :
    (h.moved d fs p).currentCluster =
      chainCluster d fs h.currentCluster (p / fs.clusterSizeBytes) := by
  unfold FileHandle.moved chainCluster
  rw [h0, Nat.zero_add]

theorem slice_clusterByte (c a n : Nat) :
    slice (clusterByte d fs c) a n = slice d.byte ((fs.dataPos c).toNat + a) n := by
  refine slice_congr fun i _ => ?_
  unfold clusterByte
  rw [Nat.add_assoc]

/-- The bytes of a turn are those of the chain. -/
theorem turnOut_chain (hi : imageSize < 2147483648)
    (hch : ChainInside d fs h.currentCluster h.fileSize imageSize) (h0 : h.positionInCluster = 0)
    {p n : Nat} (hp : p % fs.clusterSizeBytes + n ≤ fs.clusterSizeBytes)
    (hf : p + n ≤ h.fileSize) :
    turnOut d fs (h.moved d fs p) n = slice (chainByte d fs h.currentCluster) p n := by
  rcases Nat.eq_zero_or_pos n with rfl | hn
  · exact seekRead_zero d _
  · obtain ⟨-, hp1, hp2⟩ := hch (p / fs.clusterSizeBytes)
      (lt_of_le_of_lt (Nat.div_mul_le_self p _) (by omega))
    unfold turnOut getClusterDataDiskPos chainByte
    rw [moved_currentCluster h0, moved_positionInCluster, h0, Nat.zero_add, pieced_within _ hp,
      slice_clusterByte]
    generalize fs.dataPos (chainCluster d fs h.currentCluster (p / fs.clusterSizeBytes)) = z at *
    generalize p % fs.clusterSizeBytes = a at *
    have hlt : z.toNat + a + n < 2147483648 := by omega
    rw [u32_of_range hp1 (by omega), u32_add_of_lt (by omega), seekRead_eq d hlt]

/-! ## 3. One item, one call -/

/-- **`fat32_read_internal` at place `p` of the file** delivers the bytes that are asked for and
    there, and says whether they are all that was asked for. -/
theorem fat32ReadInternal_chain (hi : imageSize < 2147483648)
    (hch : ChainInside d fs h.currentCluster h.fileSize imageSize) (hc : Cursor fs h)
    (h0 : h.filePos = 0) (h1 : h.positionInCluster = 0) {fuel left p : Nat} (hfuel : 0 < fuel)
    (hl : left ≤ fuel) (hp : p ≤ h.fileSize) :
    fat32ReadInternal d fs fuel left (h.moved d fs p) =
      some ⟨if left ≤ h.fileSize - p then 1 else 0,
        slice (chainByte d fs h.currentCluster) p (min left (h.fileSize - p)),
        h.moved d fs (p + min left (h.fileSize - p))⟩ := by
  induction fuel generalizing left p with
  | zero => omega
  | succ fuel ih =>
    have hcp : Cursor fs (h.moved d fs p) := hc.moved (by omega)
    obtain ⟨t1, t2, t3⟩ := turnLength_le hcp left
    have tpos : 0 < left → (h.moved d fs p).filePos ≠ (h.moved d fs p).fileSize →
        0 < turnLength fs (h.moved d fs p) left := turnLength_pos hcp
    rw [fat32ReadInternal_step hcp, moved_moved]
    have hout := turnOut_chain (n := turnLength fs (h.moved d fs p) left) hi hch h1
      (by rw [moved_positionInCluster, h1, Nat.zero_add] at t3; exact t3)
      (by rw [moved_filePos, moved_fileSize, h0, Nat.zero_add] at t2; exact t2)
    rw [hout]
    rw [moved_filePos, moved_fileSize, h0, Nat.zero_add] at *
    generalize turnLength fs (h.moved d fs p) left = n at *
    by_cases hn : n = left
    · have e : min left (h.fileSize - p) = left := by omega
      rw [if_pos hn, if_pos (by omega), e, hn]
    · rw [if_neg hn]
      by_cases hend : p + n = h.fileSize
      · have e : min left (h.fileSize - p) = n := by omega
        rw [if_pos (Or.inl hend), if_neg (by omega), e]
      · -- the file goes on, so there is a next cluster
        have hcl : (h.moved d fs (p + n)).currentCluster ≠ 0 := by
          rw [moved_currentCluster h1]
          exact (hch _ (lt_of_le_of_lt (Nat.div_mul_le_self _ _) (by omega))).1
        have hpos : 0 < n := tpos (by omega) (by omega)
        have e1 : n + min (left - n) (h.fileSize - (p + n)) = min left (h.fileSize - p) := by omega
        have e2 : (left - n ≤ h.fileSize - (p + n)) ↔ left ≤ h.fileSize - p := by omega
        rw [if_neg (not_or.mpr ⟨hend, hcl⟩), ih (by omega) (by omega) (by omega),
          Option.map_some, slice_append, Nat.add_assoc, e1]
        simp only [e2]

/-- **A call of `fat32_read` at place `p` of the file** delivers the next bytes; it returns, as an
    `int`, the number of complete items among them. -/
theorem readItems_chain (hi : imageSize < 2147483648)
    (hch : ChainInside d fs h.currentCluster h.fileSize imageSize) (hc : Cursor fs h)
    (h0 : h.filePos = 0) (h1 : h.positionInCluster = 0) {fuel size p : Nat} (left : Nat)
    (done : Int) (hs : 1 ≤ size) (hl : size ≤ fuel) (hp : p ≤ h.fileSize) :
    readItems d fs fuel size left (i32 done) (h.moved d fs p) =
      some ⟨i32 (done + (min (size * left) (h.fileSize - p) / size : Nat)),
        slice (chainByte d fs h.currentCluster) p (min (size * left) (h.fileSize - p)),
        h.moved d fs (p + min (size * left) (h.fileSize - p))⟩ := by
  induction left generalizing p done with
  | zero => simp [readItems]
  | succ left ih =>
    rw [readItems, fat32ReadInternal_chain hi hch hc h0 h1 (by omega) hl hp]
    dsimp only
    by_cases hle : size ≤ h.fileSize - p
    · have e0 : size * (left + 1) = size * left + size := Nat.mul_succ size left
      have e1 : min size (h.fileSize - p) = size := by omega
      have e2 : size + min (size * left) (h.fileSize - (p + size)) =
          min (size * (left + 1)) (h.fileSize - p) := by omega
      rw [if_pos hle, if_neg (by decide), i32_i32_add, e1, ih _ (by omega), Option.map_some,
        slice_append, ← e2, Nat.add_div_left _ (by omega), Nat.add_assoc p]
      simp only [Option.some.injEq, ReadResult.mk.injEq, and_self, and_true]
      congr 1
      omega
    · have e1 : min size (h.fileSize - p) = h.fileSize - p := by omega
      have e2 : min (size * (left + 1)) (h.fileSize - p) = h.fileSize - p := by
        have e0 : size * (left + 1) = size * left + size := Nat.mul_succ size left
        omega
      rw [if_neg hle, if_pos rfl, e1, e2, i32_i32_add, Nat.div_eq_of_lt (by omega)]
      rfl

/-! ## 4. Sequences of calls -/

/-- Calls of `fat32_read` one after the other, each given by its `size` and `nmemb`. -/
def fat32Reads (d : Disk) (fs : Fat32Private) (fuel : Nat) :
    List (Nat × Nat) → FileHandle → Option (List ReadResult)
  | [], _ => some []
  | (size, nmemb) :: requests, h =>
    match fat32Read d fs fuel h size nmemb with
    | none => none
    | some r => (fat32Reads d fs fuel requests r.handle).map (r :: ·)

/-- What a call leaves: the count of its complete items, and a handle whose three places agree. -/
structure CallOk (d : Disk) (fs : Fat32Private) (h : FileHandle) (q : Nat × Nat)
    (r : ReadResult) : Prop where
  status : r.status = i32 ((r.out.length / q.1 : Nat) : Int)
  status_eq : r.out.length / q.1 < 2147483648 → r.status = (r.out.length / q.1 : Nat)
  filePos_le : r.handle.filePos ≤ h.fileSize
  positionInCluster : r.handle.positionInCluster = r.handle.filePos % fs.clusterSizeBytes
  currentCluster : r.handle.currentCluster =
    chainCluster d fs h.startingCluster (r.handle.filePos / fs.clusterSizeBytes)

theorem fat32Read_chain (hi : imageSize < 2147483648)
    (hch : ChainInside d fs h.currentCluster h.fileSize imageSize) (hc : Cursor fs h)
    (h0 : h.filePos = 0) (h1 : h.positionInCluster = 0) (h2 : h.currentCluster = h.startingCluster)
    {fuel size p : Nat} (nmemb : Nat) (hs : 1 ≤ size) (hl : size ≤ fuel) (hp : p ≤ h.fileSize) :
    ∃ r, fat32Read d fs fuel (h.moved d fs p) size nmemb = some r ∧
      r.out = slice (chainByte d fs h.startingCluster) p (min (size * nmemb) (h.fileSize - p)) ∧
      r.handle = h.moved d fs (p + min (size * nmemb) (h.fileSize - p)) ∧
      CallOk d fs h (size, nmemb) r := by
  have hz : (0 : Int) = i32 0 := (i32_of_range (by decide) (by decide)).symm
  have hcall := readItems_chain hi hch hc h0 h1 nmemb 0 hs hl hp
  rw [← hz, Int.zero_add, h2] at hcall
  refine ⟨_, hcall, rfl, rfl, ?_, fun hlt => ?_, ?_, ?_, ?_⟩
  · rw [slice_length]
  · rw [slice_length] at hlt ⊢
    dsimp only at hlt ⊢
    generalize min (size * nmemb) (h.fileSize - p) / size = items at hlt ⊢
    exact i32_of_range (by omega) (by omega)
  · rw [moved_filePos, h0]
    omega
  · rw [moved_positionInCluster, moved_filePos, h0, h1]
  · rw [moved_currentCluster h1, moved_filePos, h0, h2, Nat.zero_add]

theorem fat32Reads_from (hi : imageSize < 2147483648)
    (hch : ChainInside d fs h.currentCluster h.fileSize imageSize) (hc : Cursor fs h)
    (h0 : h.filePos = 0) (h1 : h.positionInCluster = 0) (h2 : h.currentCluster = h.startingCluster)
    {fuel : Nat} (requests : List (Nat × Nat)) (hq : ∀ q ∈ requests, 1 ≤ q.1 ∧ q.1 ≤ fuel)
    {p : Nat} (hp : p ≤ h.fileSize) :
    ∃ rs, fat32Reads d fs fuel requests (h.moved d fs p) = some rs ∧
      (rs.map ReadResult.out).flatten = slice (chainByte d fs h.startingCluster) p
        (min (requestedBytes requests) (h.fileSize - p)) ∧
      List.Forall₂ (CallOk d fs h) requests rs := by
  induction requests generalizing p with
  | nil => exact ⟨[], rfl, by simp, List.Forall₂.nil⟩
  | cons q requests ih =>
    obtain ⟨size, nmemb⟩ := q
    obtain ⟨hs, hl⟩ := hq _ List.mem_cons_self
    obtain ⟨r, hr, hrout, hrh, hok⟩ := fat32Read_chain hi hch hc h0 h1 h2 nmemb hs hl hp
    obtain ⟨rs, hrs, hout, hall⟩ := ih (fun q hm => hq q (List.mem_cons_of_mem _ hm))
      (p := p + min (size * nmemb) (h.fileSize - p)) (by omega)
    refine ⟨r :: rs, ?_, ?_, List.Forall₂.cons hok hall⟩
    · rw [fat32Reads, hr]
      dsimp only
      rw [hrh, hrs, Option.map_some]
    · have hmin : min (size * nmemb) (h.fileSize - p) + min (requestedBytes requests)
          (h.fileSize - (p + min (size * nmemb) (h.fileSize - p))) =
          min (size * nmemb + requestedBytes requests) (h.fileSize - p) := by
        omega
      rw [List.map_cons, List.flatten_cons, hout, hrout, slice_append, requestedBytes_cons, hmin]

end Chain

/-- **Any sequence of `fat32_read` calls on an opened file delivers the file in order.** The image
    is smaller than 2 GiB and holds the clusters that the file's size needs; `fuel` bounds the turns
    of one item and need not be larger than the largest item. Together the calls deliver the first
    bytes of the chain, as many as the file has and as are asked for; each call returns its complete
    items, and leaves a handle whose places agree. -/
theorem fat32Reads_chain {k₁ k₂ k₃ : Kernel} {d : Disk} {fs : Fat32Private} {turns ptr : Nat}
    {part : List UInt8} {next : List (List UInt8)} {mode : FileMode} {h : FileHandle}
    (hr : (fat32Resolve k₁ d).2.1 = some fs)
    (ho : fat32Open k₂ d fs turns part next mode = some (.ok (ptr, h), k₃))
    (imageSize : Nat) (hi : imageSize < 2147483648)
    (hch : ChainInside d fs h.startingCluster h.fileSize imageSize) {fuel : Nat}
    {requests : List (Nat × Nat)} (hq : ∀ q ∈ requests, 1 ≤ q.1 ∧ 1 ≤ q.2 ∧ q.1 ≤ fuel) :
    ∃ rs, fat32Reads d fs fuel requests h = some rs ∧
      (rs.map ReadResult.out).flatten = slice (chainByte d fs h.startingCluster) 0
        (min h.fileSize (requestedBytes requests)) ∧
      List.Forall₂ (CallOk d fs h) requests rs := by
  obtain ⟨-, h0, h1, h2, -⟩ := fat32Open_ok ho
  have hc := cursor_of_open hr ho
  rw [← h2] at hch
  have hrun := fat32Reads_from (p := 0) hi hch hc h0 h1 h2 requests
    (fun q hm => ⟨(hq q hm).1, (hq q hm).2.2⟩) (Nat.zero_le _)
  rw [moved_zero hc, Nat.sub_zero, Nat.min_comm] at hrun
  exact hrun

/-- The data area of a volume with one file `A` of 700 bytes that starts in cluster 3. -/
def oneFile (i : Nat) : UInt8 :=
  match i with
  | 0 => 0x41
  | 26 => 3
  | 28 => 0xBC
  | 29 => 2
  | _ => if i ≤ 10 then 0x20 else if i < 512 then 0 else UInt8.ofNat i

/-- The volume: the file lies in the clusters 3 and 5. -/
def oneFileVolume : Disk := smallVolume shortChain oneFile

/-- The handle of the file, as it is opened. -/
def oneFileHandle : FileHandle := ⟨3, 700, 0, 3, 0⟩

theorem oneFileVolume_resolve :
    (fat32Resolve bootKernel oneFileVolume).2.1 = some smallPrivate := by
  decide +kernel

theorem oneFileVolume_open :
    ∃ k, fat32Open (fat32Resolve bootKernel oneFileVolume).2.2 oneFileVolume smallPrivate 1 [0x61]
      [] .read = some (.ok (0x01003000, oneFileHandle), k) := by
  have h : (fat32Open (fat32Resolve bootKernel oneFileVolume).2.2 oneFileVolume smallPrivate 1
      [0x61] [] .read).map Prod.fst = some (.ok (0x01003000, oneFileHandle)) := by
    decide +kernel
  obtain ⟨⟨res, k⟩, hopen, hfst⟩ := Option.map_eq_some_iff.mp h
  dsimp only at hfst
  subst hfst
  exact ⟨k, hopen⟩

theorem oneFileVolume_chain : ChainInside oneFileVolume smallPrivate 3 700 4096 := by
  intro k hk
  have hk : k * 512 < 700 := hk
  have hk : k = 0 ∨ k = 1 := by omega
  rcases hk with rfl | rfl <;> decide +kernel

/-- Reading the file: 500 bytes, and then 300 items of one byte, of which 200 are there. -/
theorem fat32Reads_chain_small :
    ∃ rs, fat32Reads oneFileVolume smallPrivate 500 [(500, 1), (1, 300)] oneFileHandle = some rs ∧
      (rs.map ReadResult.out).flatten = slice (chainByte oneFileVolume smallPrivate 3) 0 700 ∧
      List.Forall₂ (CallOk oneFileVolume smallPrivate oneFileHandle) [(500, 1), (1, 300)] rs := by
  obtain ⟨k, hopen⟩ := oneFileVolume_open
  exact fat32Reads_chain oneFileVolume_resolve hopen 4096 (by decide) oneFileVolume_chain
    (by decide)

end PeachKernel
