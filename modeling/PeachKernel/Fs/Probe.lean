/-
  File:      PeachKernel/Fs/Probe.lean
  Subject:   Probing one driver after the other: what a refused disk leaves behind, and who takes a
             FAT32 volume.

  Both drivers write themselves into the disk before they have looked at it, and an error exit takes
  only the private data back. `fat16_resolve` opens three streams in the private data, which no exit
  closes. It is asked first, and looks for its signature in byte 38, which belongs to the size of
  the FAT on a FAT32 volume.

  * `probeStream` -- the requests with which `fat16_resolve` starts;
  * `fat16Resolve_ways`, `fat32Resolve_rejected` -- the exits;
  * `driverResolve_residue_iff` -- when a refused disk and the heap table are as before;
  * `fsResolve_fat32_iff` -- when FAT32 is chosen for a FAT32 boot sector.
-/
import PeachKernel.Fs.Fat16Layout
import PeachKernel.Heap.Borrowed

namespace PeachKernel

open CInt Mem

/-! ## 1. The requests -/

/-- The streams that `fat16_resolve` asks for behind its private data: those of the clusters, the
    FAT and the directories, and the one for the header. -/
def probeStream (k : Kernel) : Nat → Nat × Kernel
  | 0 => diskstreamerNew (kzalloc k 92).2
  | n + 1 => diskstreamerNew (probeStream k n).2

/-- What is owned behind the first of them. -/
def streamsHeld (k : Kernel) : Nat → List Allocation
  | 0 => held (probeStream k 0).1 8
  | n + 1 => held (probeStream k (n + 1)).1 8 ++ streamsHeld k n

section Requests

variable {k k' : Kernel} {d : Disk} {fuel : Nat}

theorem probeStream_placed (hp : k.heap.Placed) (n : Nat) : (probeStream k n).2.heap.Placed := by
  induction n with
  | zero => exact kzalloc_placed (kzalloc_placed hp 92) 8
  | succ n ih => exact kzalloc_placed ih 8

theorem probeStream_freeBlocks (hp : k.heap.Placed) (n : Nat) :
    freeBlocks (probeStream k n).2.heap = freeBlocks k.heap - (n + 2) := by
  induction n with
  | zero =>
    have h92 := kzalloc_freeBlocks hp (show 1 ≤ 92 by decide) (by decide)
    have h8 := kzalloc_freeBlocks (kzalloc_placed hp 92) (show 1 ≤ 8 by decide) (by decide)
    unfold probeStream diskstreamerNew
    omega
  | succ n ih =>
    have h8 := kzalloc_freeBlocks (probeStream_placed hp n) (show 1 ≤ 8 by decide) (by decide)
    rw [probeStream]
    unfold diskstreamerNew
    omega

/-- **A stream gets no block** where the private data and the streams before it take them all. -/
theorem probeStream_null_iff (hp : k.heap.Placed) (n : Nat) :
    (probeStream k n).1 = 0 ↔ freeBlocks k.heap ≤ n + 1 := by
  cases n with
  | zero =>
    have h92 := kzalloc_freeBlocks hp (show 1 ≤ 92 by decide) (by decide)
    refine (kzalloc_null_iff (kzalloc_placed hp 92) (by decide) (by decide)).trans ?_
    omega
  | succ n =>
    have hfree := probeStream_freeBlocks hp n
    refine (kzalloc_null_iff (probeStream_placed hp n) (by decide) (by decide)).trans ?_
    omega

theorem probeStream_borrows (hp : k.heap.Placed) (hn : k.heap.NullStops) (n : Nat) :
    Borrows k (probeStream k n).2 (streamsHeld k n ++ held (kzalloc k 92).1 92) := by
  induction n with
  | zero =>
    have h92 := (Borrows.refl hp hn).request (show 1 ≤ 92 by decide) (by decide)
    rw [List.append_nil] at h92
    exact h92.request (by decide) (by decide)
  | succ n ih =>
    have h8 := ih.request (show 1 ≤ 8 by decide) (by decide)
    rw [streamsHeld, List.append_assoc]
    exact h8

/-- **No stream is open** exactly where the first one got no block. -/
theorem streamsHeld_nil_iff (hp : k.heap.Placed) (n : Nat) :
    streamsHeld k n = [] ↔ freeBlocks k.heap ≤ 1 := by
  induction n with
  | zero => exact (held_eq_nil_iff _ _).trans (probeStream_null_iff hp 0)
  | succ n ih =>
    rw [streamsHeld, List.append_eq_nil_iff, held_eq_nil_iff, probeStream_null_iff hp, ih]
    omega

/-- `fat16_get_root_directory` fails where its buffer is refused, and leaves the kernel as it
    was. -/
theorem fat16GetRootDirectory_error {header : Fat16Header} {address : Nat} {e : Int}
    (hp : k.heap.Placed)
    (h : fat16GetRootDirectory k d fuel header address = some (.error e, k')) :
    (kzalloc k (header.rootDirEntries.toNat * 32)).1 = 0 ∧ k' = k := by
  have hsize : header.rootDirEntries.toNat * 32 < 4294967296 := by
    have := header.rootDirEntries.toNat_lt
    omega
  unfold fat16GetRootDirectory at h
  dsimp only at h
  cases hcount : fat16GetTotalItemsForDirectory d fuel header.rootDirSectorPos with
  | none =>
    rw [hcount] at h
    cases h
  | some total =>
    rw [hcount] at h
    dsimp only at h
    by_cases h0 : (kzalloc k (header.rootDirEntries.toNat * 32)).1 = 0
    · rw [if_pos h0] at h
      exact ⟨h0, (Prod.mk.inj (Option.some.inj h)).2.symm.trans (kzalloc_refused hp hsize h0)⟩
    · rw [if_neg h0] at h
      cases h

/-! ## 2. The exits -/

/-- The root directory of a probe, read behind the requests. -/
def probeRoot (k : Kernel) (d : Disk) (fuel : Nat) : Option (Except Int FatDirectory × Kernel) :=
  fat16GetRootDirectory (probeStream k 3).2 d fuel (fat16ReadHeader d) ((kzalloc k 92).1 + 64)

/-- The error exit of a probe, behind the requests. -/
def probeErr (k : Kernel) (res : Int) : Resolved Fat16Mount :=
  fat16ResolveErr res (kzalloc k 92).1 (probeStream k 3).1 (probeStream k 3).2

/-- **The ways through `fat16_resolve`**: no stream for the header, another signature, and what
    becomes of the root directory. -/
theorem fat16Resolve_ways (hp : k.heap.Placed) (d : Disk) (fuel : Nat) :
    ((probeStream k 3).1 = 0 ∧ fat16Resolve k d fuel = some (probeErr k (-ENOMEM))) ∨
    ((probeStream k 3).1 ≠ 0 ∧ (fat16ReadHeader d).signature ≠ 0x29 ∧
      fat16Resolve k d fuel = some (probeErr k (-EFSNOTUS))) ∨
    ((probeStream k 3).1 ≠ 0 ∧ (fat16ReadHeader d).signature = 0x29 ∧
      ((probeRoot k d fuel = none ∧ fat16Resolve k d fuel = none) ∨
        ((∃ e, probeRoot k d fuel = some (.error e, (probeStream k 3).2)) ∧
          fat16Resolve k d fuel = some (probeErr k (- EIO))) ∨
        ∃ r, fat16Resolve k d fuel = some r ∧ r.res = 0)) := by
  have hstream : diskstreamerNew (diskstreamerNew (diskstreamerNew (diskstreamerNew
      (kzalloc k 92).2).2).2).2 = probeStream k 3 := rfl
  have hread : fat16GetRootDirectory (probeStream k 3).2 d fuel (fat16ReadHeader d)
      ((kzalloc k 92).1 + 64) = probeRoot k d fuel := rfl
  unfold fat16Resolve
  dsimp only
  rw [hstream, hread]
  by_cases h0 : (probeStream k 3).1 = 0
  · refine Or.inl ⟨h0, ?_⟩
    unfold probeErr
    rw [if_pos h0, h0]
  rw [if_neg h0]
  by_cases hsig : (fat16ReadHeader d).signature ≠ 0x29
  · exact Or.inr (Or.inl ⟨h0, hsig, if_pos hsig⟩)
  rw [if_neg hsig]
  refine Or.inr (Or.inr ⟨h0, not_not.mp hsig, ?_⟩)
  cases hroot : probeRoot k d fuel with
  | none => exact Or.inl ⟨rfl, rfl⟩
  | some result =>
    obtain ⟨result, k'⟩ := result
    cases result with
    | error e =>
      unfold probeRoot at hroot
      have hsame := (fat16GetRootDirectory_error (probeStream_placed hp 3) hroot).2
      dsimp only
      rw [hsame]
      exact Or.inr (Or.inl ⟨⟨e, rfl⟩, rfl⟩)
    | ok dir =>
      dsimp only
      exact Or.inr (Or.inr ⟨_, rfl, rfl⟩)

/-- **A disk that `fat16_resolve` refuses** is left by its error exit. -/
theorem fat16Resolve_rejected {r : Resolved Fat16Mount} (hp : k.heap.Placed)
    (h : fat16Resolve k d fuel = some r) (hres : r.res ≠ 0) : ∃ res, r = probeErr k res := by
  rcases fat16Resolve_ways hp d fuel with
    ⟨-, e⟩ | ⟨-, -, e⟩ | ⟨-, -, ⟨-, e⟩ | ⟨-, e⟩ | ⟨r', e, hok⟩⟩
  · exact ⟨_, (Option.some.inj (h.symm.trans e))⟩
  · exact ⟨_, (Option.some.inj (h.symm.trans e))⟩
  · exact absurd (h.symm.trans e) (Option.some_ne_none r)
  · exact ⟨_, (Option.some.inj (h.symm.trans e))⟩
  · rw [Option.some.inj (h.symm.trans e)] at hres
    exact absurd hok hres

/-- The exit gives back the private data and the stream for the header. -/
theorem fat16ResolveErr_borrows {k₀ : Kernel} (hc : k₀.heap.Clean) {own : List Allocation}
    {fatPrivate stream : Nat} (res : Int)
    (h : Borrows k₀ k (held stream 8 ++ own ++ held fatPrivate 92)) :
    Borrows k₀ (fat16ResolveErr res fatPrivate stream k).kernel own := by
  rw [List.append_assoc] at h
  have hstream : Borrows k₀ (if stream ≠ 0 then diskstreamerClose k stream else k)
      (own ++ held fatPrivate 92) := by
    by_cases h0 : stream = 0
    · rw [if_neg (not_not.mpr h0)]
      rw [(held_eq_nil_iff stream 8).mpr h0] at h
      exact h
    · rw [if_pos h0]
      exact h.giveBack hc
  exact (hstream.permute List.perm_append_comm).giveBack hc

/-- **The table behind a refused FAT16 disk** is as before exactly where no stream was opened. -/
theorem fat16Resolve_sameTable_iff {r : Resolved Fat16Mount} (hp : k.heap.Placed)
    (hn : k.heap.NullStops) (hc : k.heap.Clean) (h : fat16Resolve k d fuel = some r)
    (hres : r.res ≠ 0) : SameTable k.heap r.kernel.heap ↔ freeBlocks k.heap ≤ 1 := by
  obtain ⟨res, rfl⟩ := fat16Resolve_rejected hp h hres
  have hexit := fat16ResolveErr_borrows hc res (probeStream_borrows hp hn 3)
  exact hexit.sameTable_iff.trans (streamsHeld_nil_iff hp 2)

/-- A cluster has less than 16 MiB. -/
theorem readHeader_clusterSize_lt (d : Disk) :
    (readHeader d).bytesPerSector.toNat * (readHeader d).sectorsPerCluster.toNat < 4294967296 :=
  Nat.lt_of_le_of_lt (Nat.mul_le_mul (Nat.le_of_lt (readHeader d).bytesPerSector.toNat_lt)
    (Nat.le_of_lt (readHeader d).sectorsPerCluster.toNat_lt)) (by decide)

/-- **A disk that `fat32_resolve` refuses** is left by its error exit, behind the two requests. -/
theorem fat32Resolve_rejected (hp : k.heap.Placed) (hres : (fat32Resolve k d).1 ≠ 0) :
    (fat32Resolve k d).1 < 0 ∧ (fat32Resolve k d).2.2 =
      fat32ResolveErr (kzalloc (kzalloc k 104).2 8).2 (kzalloc k 104).1
        (kzalloc (kzalloc k 104).2 8).1 := by
  unfold fat32Resolve at hres ⊢
  dsimp only at hres ⊢
  by_cases h0 : (kzalloc (kzalloc k 104).2 8).1 = 0
  · rw [if_pos h0, h0]
    exact ⟨show -ENOMEM < 0 by decide, rfl⟩
  rw [if_neg h0] at hres ⊢
  by_cases hsig : (readHeader d).bsBootSig ≠ 0x29
  · rw [if_pos hsig]
    exact ⟨show -EFSNOTUS < 0 by decide, rfl⟩
  rw [if_neg hsig] at hres ⊢
  by_cases hbuf : (kzalloc (kzalloc (kzalloc k 104).2 8).2
      ((readHeader d).bytesPerSector.toNat * (readHeader d).sectorsPerCluster.toNat)).1 = 0
  · rw [if_pos hbuf, kzalloc_refused (kzalloc_placed (kzalloc_placed hp 104) 8)
      (readHeader_clusterSize_lt d) hbuf]
    exact ⟨show -ENOMEM < 0 by decide, rfl⟩
  · rw [if_neg hbuf] at hres
    exact absurd rfl hres

/-- The exit gives back the private data and the stream. -/
theorem fat32ResolveErr_borrows {k₀ : Kernel} (hc : k₀.heap.Clean) {fatPrivate stream : Nat}
    (h : Borrows k₀ k (held stream 8 ++ held fatPrivate 104)) :
    Borrows k₀ (fat32ResolveErr k fatPrivate stream) [] := by
  -- the buffer is null
  have hbuf : Borrows k₀ (if fatPrivate ≠ 0 then kfree k 0 else k)
      (held stream 8 ++ held fatPrivate 104) := by
    by_cases h0 : fatPrivate = 0
    · rw [if_neg (not_not.mpr h0)]
      exact h
    · rw [if_pos h0]
      have hnull : Borrows k₀ k (held 0 0 ++ (held stream 8 ++ held fatPrivate 104)) := h
      exact hnull.giveBack hc
  have hprivate := (hbuf.permute List.perm_append_comm).giveBack hc
  unfold fat32ResolveErr
  by_cases h0 : stream = 0
  · rw [if_neg (not_not.mpr h0)]
    rw [(held_eq_nil_iff stream 8).mpr h0] at hprivate
    exact hprivate
  · rw [if_pos h0]
    rw [← List.append_nil (held stream 8)] at hprivate
    exact hprivate.giveBack hc

/-- **The table behind a refused FAT32 disk** is as before. -/
theorem fat32Resolve_sameTable (hp : k.heap.Placed) (hn : k.heap.NullStops) (hc : k.heap.Clean)
    (hres : (fat32Resolve k d).1 ≠ 0) : SameTable k.heap (fat32Resolve k d).2.2.heap := by
  have h104 := (Borrows.refl hp hn).request (show 1 ≤ 104 by decide) (by decide)
  rw [List.append_nil] at h104
  have hboth := h104.request (show 1 ≤ 8 by decide) (by decide)
  rw [(fat32Resolve_rejected hp hres).2]
  exact (fat32ResolveErr_borrows hc hboth).sameTable_iff.mpr rfl

end Requests

/-! ## 3. Who takes a disk -/

section Volume

variable {k : Kernel} {d : Disk} {n : Nat}

/-- The signature that `fat32_resolve` looks for. -/
theorem readHeader_bootSig (d : Disk) : (readHeader d).bsBootSig = d.byte 66 := by
  unfold readHeader
  rw [seekRead_eq d (p := 0) (n := 90) (by decide)]
  dsimp only
  rw [bytesMem_slice _ (by decide), Nat.zero_add]

/-- The streams are open while the table ends with free blocks. -/
theorem probeStream_freeTail (m : Nat) (h : k.heap.FreeTail (n + m + 2)) :
    (probeStream k m).1 ≠ 0 ∧ (probeStream k m).2.heap.FreeTail n := by
  induction m generalizing n with
  | zero =>
    have h92 := h.take (show 1 ≤ 92 by decide) (by decide)
    exact h92.2.take (by decide) (by decide)
  | succ m ih =>
    have hm := ih (n := n + 1) (by rwa [Nat.add_right_comm n 1 m])
    exact hm.2.take (by decide) (by decide)

/-- **FAT16 refuses** a disk without its signature, and two blocks are given back. -/
theorem fat16Resolve_notUs (h : k.heap.FreeTail (n + 5)) (hsig : d.byte 38 ≠ 0x29) (fuel : Nat) :
    fat16Resolve k d fuel = some (probeErr k (-EFSNOTUS)) ∧
      (probeErr k (-EFSNOTUS)).kernel.heap.FreeTail n := by
  obtain ⟨hstream, htail⟩ := probeStream_freeTail 3 h
  have hsig' : (fat16ReadHeader d).signature ≠ 0x29 := by
    rw [fat16ReadHeader_byte]
    exact hsig
  constructor
  · rcases fat16Resolve_ways h.placed d fuel with ⟨h0, -⟩ | ⟨-, -, e⟩ | ⟨-, hours, -⟩
    · exact absurd h0 hstream
    · exact e
    · exact absurd hours hsig'
  · unfold probeErr fat16ResolveErr
    dsimp only
    rw [if_pos hstream]
    exact (htail.release _).release _

/-- **FAT16 takes** a disk with its signature and no root items, or never answers: a buffer of 0
    bytes is never refused. -/
theorem fat16Resolve_empty (h : k.heap.FreeTail (n + 6)) (hsig : d.byte 38 = 0x29)
    (hroot : load16 d.byte 17 = 0) (fuel : Nat) :
    fat16Resolve k d fuel = none ∨ ∃ r, fat16Resolve k d fuel = some r ∧ r.res = 0 := by
  obtain ⟨hstream, htail⟩ := probeStream_freeTail 3 (n := n + 1) h
  have hsig' : (fat16ReadHeader d).signature = 0x29 := by
    rw [fat16ReadHeader_byte]
    exact hsig
  have hentries : (fat16ReadHeader d).rootDirEntries.toNat * 32 = 0 := by
    rw [fat16ReadHeader_byte, hroot]
    rfl
  rcases fat16Resolve_ways h.placed d fuel with
    ⟨h0, -⟩ | ⟨-, hno, -⟩ | ⟨-, -, ⟨-, e⟩ | ⟨⟨_, e⟩, -⟩ | hok⟩
  · exact absurd h0 hstream
  · exact absurd hsig' hno
  · exact Or.inl e
  · have hnull := (fat16GetRootDirectory_error htail.placed e).1
    rw [hentries] at hnull
    exact absurd hnull (htail.answered (by decide))
  · exact Or.inr hok

/-- **FAT32 takes** a disk with its signature: a cluster always gets its buffer. -/
theorem fat32Resolve_ours (h : k.heap.FreeTail (n + 3)) (hsig : d.byte 66 = 0x29) :
    (fat32Resolve k d).1 = 0 := by
  have h104 := h.take (show 1 ≤ 104 by decide) (by decide)
  obtain ⟨hstream, htail⟩ := h104.2.take (show 1 ≤ 8 by decide) (by decide)
  have hbuf := htail.answered (readHeader_clusterSize_lt d)
  have hsig' : ¬ (readHeader d).bsBootSig ≠ 0x29 := by
    rw [readHeader_bootSig]
    exact not_not.mpr hsig
  unfold fat32Resolve
  dsimp only
  rw [if_neg hstream, if_neg hsig', if_neg hbuf]

end Volume

/-! ## 4. What is left -/

section Residue

variable {k k' : Kernel} {d : Disk} {fuel : Nat} {driver : Driver} {res : Int} {fields : DiskFields}

/-- The answer of FAT16. -/
theorem driverResolve_fat16_iff :
    Driver.fat16.resolve k d fuel = some (res, fields, k') ↔
      ∃ r, fat16Resolve k d fuel = some r ∧ r.res = res ∧ r.fields = fields ∧ r.kernel = k' := by
  unfold Driver.resolve
  dsimp only
  rw [Option.map_eq_some_iff]
  simp only [Prod.mk.injEq]

/-- The answer of FAT32. -/
theorem driverResolve_fat32_iff :
    Driver.fat32.resolve k d fuel = some (res, fields, k') ↔
      (fat32Resolve k d).1 = res ∧ (fat32Resolve k d).2.2 = k' ∧
        fields = ⟨some .fat32, if res < 0 then 0 else (kzalloc k 104).1⟩ := by
  unfold Driver.resolve fat32ResolveDisk
  dsimp only
  generalize fat32Resolve k d = r
  rw [Option.some.injEq, Prod.mk.injEq, Prod.mk.injEq]
  constructor
  · rintro ⟨rfl, rfl, rfl⟩
    exact ⟨rfl, rfl, rfl⟩
  · rintro ⟨rfl, rfl, rfl⟩
    exact ⟨rfl, rfl, rfl⟩

/-- A driver that refuses the disk has written itself into it, and no private data. -/
theorem driverResolve_fields (hp : k.heap.Placed)
    (h : driver.resolve k d fuel = some (res, fields, k')) (hres : res ≠ 0) :
    fields = ⟨some driver, 0⟩ := by
  cases driver with
  | fat16 =>
    obtain ⟨r, hr, h1, h2, -⟩ := driverResolve_fat16_iff.mp h
    obtain ⟨_, rfl⟩ := fat16Resolve_rejected hp hr (h1 ▸ hres)
    exact h2.symm
  | fat32 =>
    obtain ⟨h1, -, h3⟩ := driverResolve_fat32_iff.mp h
    have hneg : res < 0 := h1 ▸ (fat32Resolve_rejected hp (h1.symm ▸ hres)).1
    rw [h3, if_pos hneg]

/-- ... and the table is as before, but for the streams of FAT16. -/
theorem driverResolve_sameTable_iff (hp : k.heap.Placed) (hn : k.heap.NullStops) (hc : k.heap.Clean)
    (h : driver.resolve k d fuel = some (res, fields, k')) (hres : res ≠ 0) :
    SameTable k.heap k'.heap ↔ (driver = .fat16 → freeBlocks k.heap ≤ 1) := by
  cases driver with
  | fat16 =>
    obtain ⟨r, hr, h1, -, h3⟩ := driverResolve_fat16_iff.mp h
    have hiff := fat16Resolve_sameTable_iff hp hn hc hr (h1 ▸ hres)
    rw [h3] at hiff
    exact hiff.trans ⟨fun hf _ => hf, fun hf => hf rfl⟩
  | fat32 =>
    obtain ⟨h1, h2, -⟩ := driverResolve_fat32_iff.mp h
    have hsame := fat32Resolve_sameTable hp hn hc (h1.symm ▸ hres)
    rw [h2] at hsame
    exact ⟨fun _ e => Driver.noConfusion e, fun _ => hsame⟩

end Residue

/-- **A refused disk and the heap table are as before exactly** where the fields already named the
    driver and no private data, and FAT16 got no block for a stream. -/
theorem driverResolve_residue_iff {k k' : Kernel} {d : Disk} {fuel : Nat} {driver : Driver}
    {res : Int} {fields : DiskFields} (hp : k.heap.Placed) (hn : k.heap.NullStops)
    (hc : k.heap.Clean) (before : DiskFields) (h : driver.resolve k d fuel = some (res, fields, k'))
    (hres : res ≠ 0) : (SameTable k.heap k'.heap ∧ fields = before) ↔
      before = ⟨some driver, 0⟩ ∧ (driver = .fat16 → freeBlocks k.heap ≤ 1) := by
  rw [driverResolve_sameTable_iff hp hn hc h hres, driverResolve_fields hp h hres, and_comm,
    eq_comm]

/-- FAT32 refuses an empty disk. -/
theorem driverResolve_residue_iff_empty : ∃ fields k',
    Driver.fat32.resolve emptyKernel (diskOf []) 0 = some (-EFSNOTUS, fields, k') ∧
      SameTable emptyKernel.heap k'.heap ∧ fields = ⟨some .fat32, 0⟩ := by
  have hres : (fat32Resolve emptyKernel (diskOf [])).1 = -EFSNOTUS := by decide +kernel
  obtain ⟨fields, k', e⟩ : ∃ fields k', Driver.fat32.resolve emptyKernel (diskOf []) 0 =
      some (-EFSNOTUS, fields, k') := ⟨_, _, driverResolve_fat32_iff.mpr ⟨hres, rfl, rfl⟩⟩
  exact ⟨fields, k', e, (driverResolve_residue_iff emptyKernel_placed emptyKernel_nullStops
    emptyKernel_clean ⟨some .fat32, 0⟩ e (by decide)).mpr ⟨rfl, nofun⟩⟩

/-- **FAT16 refuses an empty disk**: three streams stay, and the disk names FAT16. -/
theorem driverResolve_leaves : ∃ fields k',
    Driver.fat16.resolve emptyKernel (diskOf []) 0 = some (-EFSNOTUS, fields, k') ∧
      ¬ SameTable emptyKernel.heap k'.heap ∧ fields ≠ ⟨none, 0⟩ := by
  have htail : emptyKernel.heap.FreeTail (25595 + 5) := kernelHeap_freeTail _
  obtain ⟨e, -⟩ := fat16Resolve_notUs (d := diskOf []) htail (by decide) 0
  have hres := driverResolve_fat16_iff.mpr ⟨_, e, rfl, rfl, rfl⟩
  have hno : (probeErr emptyKernel (-EFSNOTUS)).res ≠ 0 := show -EFSNOTUS ≠ 0 by decide
  refine ⟨_, _, hres, fun hsame => ?_, nofun⟩
  have hfew := (driverResolve_sameTable_iff emptyKernel_placed emptyKernel_nullStops
    emptyKernel_clean hres hno).mp hsame rfl
  rw [emptyKernel_free] at hfew
  exact absurd hfew (by decide)

/-! ## 5. A FAT32 volume -/

/-- **A boot sector of FAT32**, by its format: `BPB_RootEntCnt` and `BPB_FATSz16` are 0, and
    `BS_BootSig` stands where FAT32 has it. -/
structure IsFat32Sector (d : Disk) : Prop where
  rootEntCnt : load16 d.byte 17 = 0
  fatSz16 : load16 d.byte 22 = 0
  bootSig : d.byte 66 = 0x29

section Choice

variable {d : Disk} {entries : Int → UInt8} {mem : Mem} {fields : DiskFields}

/-- **FAT16 is asked first**, and does not let the disk go on to FAT32. -/
theorem fsResolve_byte38 (h : IsFat32Sector d) (hsig : d.byte 38 = 0x29) (fuel : Nat)
    (fields' : DiskFields) (k' : Kernel) :
    fsResolve fields ⟨kernelHeap entries, mem⟩ d fuel ≠ some (some .fat32, fields', k') := by
  have htail : (⟨kernelHeap entries, mem⟩ : Kernel).heap.FreeTail (25594 + 6) :=
    kernelHeap_freeTail entries
  intro hres
  unfold fsResolve filesystems at hres
  rw [fsResolveLoop] at hres
  rcases fat16Resolve_empty htail hsig h.rootEntCnt fuel with e | ⟨r, e, hok⟩
  · have hnone : Driver.fat16.resolve ⟨kernelHeap entries, mem⟩ d fuel = none := by
      unfold Driver.resolve
      rw [e]
      rfl
    rw [hnone] at hres
    cases hres
  · rw [driverResolve_fat16_iff.mpr ⟨r, e, rfl, rfl, rfl⟩] at hres
    dsimp only at hres
    rw [if_pos hok] at hres
    cases hres

/-- **FAT16 refuses the disk**, and FAT32 takes it. -/
theorem fsResolve_chooses (h : IsFat32Sector d) (hsig : d.byte 38 ≠ 0x29) :
    ∃ fields' k', fsResolve fields ⟨kernelHeap entries, mem⟩ d 0 =
      some (some .fat32, fields', k') := by
  have htail : (⟨kernelHeap entries, mem⟩ : Kernel).heap.FreeTail (25595 + 5) :=
    kernelHeap_freeTail entries
  generalize (⟨kernelHeap entries, mem⟩ : Kernel) = k at htail
  obtain ⟨e, htail'⟩ := fat16Resolve_notUs htail hsig 0
  have hours := fat32Resolve_ours (n := 25592) htail' h.bootSig
  have hno : ¬ (probeErr k (-EFSNOTUS)).res = 0 := show ¬ -EFSNOTUS = 0 by decide
  obtain ⟨fields', k', e'⟩ :
      ∃ fields' k', Driver.fat32.resolve (probeErr k (-EFSNOTUS)).kernel d 0 =
        some (0, fields', k') := ⟨_, _, driverResolve_fat32_iff.mpr ⟨hours, rfl, rfl⟩⟩
  refine ⟨fields', k', ?_⟩
  unfold fsResolve filesystems
  rw [fsResolveLoop, driverResolve_fat16_iff.mpr ⟨_, e, rfl, rfl, rfl⟩]
  dsimp only
  rw [if_neg hno, fsResolveLoop, e']
  rfl

end Choice

/-- **FAT32 is chosen for a FAT32 boot sector exactly** where byte 38, which is part of
    `BPB_FATSz32`, is not the signature of FAT16. -/
theorem fsResolve_fat32_iff {d : Disk} (h : IsFat32Sector d) (entries : Int → UInt8) (mem : Mem)
    (fields : DiskFields) :
    (∃ fuel fields' k', fsResolve fields ⟨kernelHeap entries, mem⟩ d fuel =
      some (some .fat32, fields', k')) ↔ d.byte 38 ≠ 0x29 := by
  constructor
  · rintro ⟨fuel, fields', k', hres⟩ hsig
    exact fsResolve_byte38 h hsig fuel fields' k' hres
  · exact fun hsig => ⟨0, fsResolve_chooses h hsig⟩

/-- A boot sector with the signature of FAT32, and 0 elsewhere. -/
theorem isFat32Sector_plain : IsFat32Sector (diskOf [(66, 0x29)]) :=
  ⟨by decide, by decide, by decide⟩

theorem fsResolve_fat32_iff_plain : ∃ fuel fields' k',
    fsResolve ⟨none, 0⟩ emptyKernel (diskOf [(66, 0x29)]) fuel = some (some .fat32, fields', k') :=
  (fsResolve_fat32_iff isFat32Sector_plain (fun _ => 0) (fun _ => 0) ⟨none, 0⟩).mpr (by decide)

/-- **A FAT of `0x290000` sectors**: the disk is never given to FAT32. -/
theorem fsResolve_not_fat32 : IsFat32Sector (diskOf [(38, 0x29), (66, 0x29)]) ∧
    load32 (diskOf [(38, 0x29), (66, 0x29)]).byte 36 = 0x290000 ∧
    ¬ ∃ fuel fields' k', fsResolve ⟨none, 0⟩ emptyKernel (diskOf [(38, 0x29), (66, 0x29)]) fuel =
      some (some .fat32, fields', k') := by
  have hsector : IsFat32Sector (diskOf [(38, 0x29), (66, 0x29)]) :=
    ⟨by decide, by decide, by decide⟩
  refine ⟨hsector, by decide, ?_⟩
  rintro ⟨fuel, fields', k', hres⟩
  exact fsResolve_byte38 hsector (by decide) fuel fields' k' hres

end PeachKernel
