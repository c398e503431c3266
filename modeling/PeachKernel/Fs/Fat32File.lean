/-
  File:      PeachKernel/Fs/Fat32File.lean
  Subject:   The file layer over the FAT32 driver.

  * `fat32Fs` -- the driver as a table of functions;
  * `openA` -- what `fopen("0:/a", "r")` does on a small volume: five blocks, of which three are the
    path's;
  * `fileRun_last_slot` -- the 512th open file.
-/
import PeachKernel.Fs.Fat32Read
import PeachKernel.Fs.File

namespace PeachKernel

open CInt Mem

/-! ## 1. The driver -/

/-- **The ways through `fat32_open`**: an error before anything is allocated, a handle that gets no
    block, and a handle. -/
theorem fat32Open_cases {k k' : Kernel} {d : Disk} {fs : Fat32Private} {fuel : Nat}
    {part : List UInt8} {next : List (List UInt8)} {mode : FileMode}
    {r : Except Int (Nat × FileHandle)} (h : fat32Open k d fs fuel part next mode = some (r, k')) :
    (∃ e, e < 0 ∧ r = .error e ∧ k' = k) ∨
    (k' = (kzalloc k 24).2 ∧ (((kzalloc k 24).1 = 0 ∧ r = .error (-ENOMEM)) ∨
      ((kzalloc k 24).1 ≠ 0 ∧ ∃ handle, r = .ok ((kzalloc k 24).1, handle)))) := by
  unfold fat32Open at h
  by_cases hmode : mode ≠ .read
  · rw [if_pos hmode] at h
    obtain ⟨rfl, rfl⟩ := Prod.mk.inj (Option.some.inj h)
    exact Or.inl ⟨_, by decide, rfl, rfl⟩
  rw [if_neg hmode] at h
  cases hitem : getPathDirectoryItem k.mem d fs fuel part next with
  | none =>
    rw [hitem] at h
    exact absurd h (Option.some_ne_none _).symm
  | some item =>
    rw [hitem] at h
    dsimp only at h
    by_cases hname : item.filename.headD 0 = 0
    · rw [if_pos hname] at h
      obtain ⟨rfl, rfl⟩ := Prod.mk.inj (Option.some.inj h)
      exact Or.inl ⟨_, by decide, rfl, rfl⟩
    rw [if_neg hname] at h
    by_cases h0 : (kzalloc k 24).1 = 0
    · rw [if_pos h0] at h
      obtain ⟨rfl, rfl⟩ := Prod.mk.inj (Option.some.inj h)
      exact Or.inr ⟨rfl, Or.inl ⟨h0, rfl⟩⟩
    · rw [if_neg h0] at h
      obtain ⟨rfl, rfl⟩ := Prod.mk.inj (Option.some.inj h)
      exact Or.inr ⟨rfl, Or.inr ⟨h0, _, rfl⟩⟩

/-- `fat32_fs`, for a disk that `fat32_resolve` took. -/
def fat32Fs (d : Disk) (fs : Fat32Private) (fuel : Nat) : Filesystem FileHandle where
  openFn k part next mode := fat32Open k d fs fuel part.text (next.map PathPart.text) mode
  readFn h size nmemb := (fat32Read d fs fuel h size nmemb).map fun r => (r.status, r.out, r.handle)
  seekFn h offset seekMode := fat32Seek d fs fuel h offset seekMode
  statFn := fat32Stat
  closeFn k priv := fat32Close k priv.1
  openFn_error h := by
    rcases fat32Open_cases h with ⟨e, he, hr, -⟩ | ⟨-, ⟨-, hr⟩ | ⟨-, _, hr⟩⟩
    · rwa [Except.error.inj hr]
    · rw [Except.error.inj hr]
      decide
    · cases hr
  openFn_placed hp h := by
    rcases fat32Open_cases h with ⟨_, -, -, rfl⟩ | ⟨rfl, -⟩
    · exact hp
    · exact parserKeeps_placed.alloc 24 (by decide) (by decide) hp
  statFn_error _ := Int.le_refl 0
  closeFn_ok _ _ := rfl
  closeFn_placed _ hp := hp.free _

theorem fat32Fs_open (k : Kernel) (d : Disk) (fs : Fat32Private) (fuel : Nat) (part : PathPart)
    (next : List PathPart) (mode : FileMode) : (fat32Fs d fs fuel).openFn k part next mode =
      fat32Open k d fs fuel part.text (next.map PathPart.text) mode :=
  rfl

/-! ## 2. A small volume -/

/-- The buffer holds the cluster. -/
theorem clusterBuf_inside (mem : Mem) {d : Disk} {fs : Fat32Private} {clusterId i : Nat}
    (h : getClusterDataDiskPos fs clusterId + fs.clusterSizeBytes < 2147483648)
    (hi : i < fs.clusterSizeBytes) :
    clusterBuf mem d fs clusterId i = d.byte (getClusterDataDiskPos fs clusterId + i) := by
  unfold clusterBuf
  rw [seekRead_eq d h]
  simp [slice, hi]

/-- The item of the file `A`. -/
def oneFileItem : DirectoryItem := ⟨0x41 :: List.replicate 10 0x20, 0, 0, 3, 700⟩

/-- The items of the root directory: the file, and the end. -/
theorem oneFileVolume_buf (mem : Mem) {o : Nat} (ho : o + 32 ≤ 512) :
    directoryItemAt (clusterBuf mem oneFileVolume smallPrivate 2) o =
      directoryItemAt (fun i => oneFileVolume.byte (1024 + i)) o := by
  have hpos : getClusterDataDiskPos smallPrivate 2 = 1024 := by decide +kernel
  refine directoryItemAt_congr fun i hi => ?_
  rw [clusterBuf_inside mem (by decide +kernel) (by show o + i < 512; omega), hpos]

theorem oneFileVolume_first :
    directoryItemAt (fun i => oneFileVolume.byte (1024 + i)) 0 = oneFileItem := by
  decide +kernel

theorem oneFileVolume_last :
    (directoryItemAt (fun i => oneFileVolume.byte (1024 + i)) 32).filename.headD 0 = 0 := by
  decide +kernel

/-- The file is found, whatever memory holds. -/
theorem oneFileVolume_item (mem : Mem) :
    getPathDirectoryItem mem oneFileVolume smallPrivate 1 [0x61] [] = some oneFileItem := by
  have hscan : scanCluster mem oneFileVolume smallPrivate (transformFilenameToFat [0x61]) 2 =
      .found oneFileItem := by
    unfold scanCluster
    rw [scanItems, if_neg (by decide)]
    dsimp only
    rw [oneFileVolume_buf mem (by decide), oneFileVolume_first, if_neg (by decide),
      if_pos (by decide)]
  have hroot : smallPrivate.header.bpbRootClus.toNat = 2 := rfl
  unfold getPathDirectoryItem
  rw [hroot, pathLoop, findInDirectory, hscan]

/-- The root directory has no other item, whatever is looked for. -/
theorem oneFileVolume_scan (mem : Mem) (name : List UInt8) :
    scanCluster mem oneFileVolume smallPrivate name 2 = .found oneFileItem ∨
      scanCluster mem oneFileVolume smallPrivate name 2 = .noMore := by
  have hsecond :
      (directoryItemAt (clusterBuf mem oneFileVolume smallPrivate 2) 32).filename.headD 0 = 0 := by
    rw [oneFileVolume_buf mem (by decide)]
    exact oneFileVolume_last
  unfold scanCluster
  rw [scanItems, if_neg (by decide)]
  dsimp only
  rw [oneFileVolume_buf mem (by decide), oneFileVolume_first, if_neg (by decide)]
  split
  · exact Or.inl rfl
  · refine Or.inr ?_
    rw [Nat.zero_add, show smallPrivate.clusterSizeBytes = 511 + 1 from rfl, scanItems,
      if_neg (by decide)]
    dsimp only
    rw [if_pos hsecond]

theorem oneFileVolume_find (mem : Mem) (name : List UInt8) (fuel : Nat) :
    findInDirectory mem oneFileVolume smallPrivate name fuel 2 = none ∨
      findInDirectory mem oneFileVolume smallPrivate name fuel 2 = some (some oneFileItem) ∨
      findInDirectory mem oneFileVolume smallPrivate name fuel 2 = some none := by
  cases fuel with
  | zero => exact Or.inl rfl
  | succ fuel =>
    unfold findInDirectory
    rcases oneFileVolume_scan mem name with hscan | hscan
    · rw [hscan]
      exact Or.inr (Or.inl rfl)
    · rw [hscan]
      exact Or.inr (Or.inr rfl)

/-- **Every file that is opened there** has 700 bytes. -/
theorem oneFileVolume_opened {k k' : Kernel} {fuel ptr : Nat} {part : List UInt8}
    {next : List (List UInt8)} {mode : FileMode} {h : FileHandle}
    (ho : fat32Open k oneFileVolume smallPrivate fuel part next mode = some (.ok (ptr, h), k')) :
    h.fileSize = 700 := by
  have hroot : smallPrivate.header.bpbRootClus.toNat = 2 := rfl
  unfold fat32Open getPathDirectoryItem at ho
  rw [hroot] at ho
  split at ho
  · cases ho
  rcases oneFileVolume_find k.mem (transformFilenameToFat part) fuel with hfind | hfind | hfind
  · rw [pathLoop, hfind] at ho
    cases ho
  · rw [pathLoop, hfind] at ho
    cases next with
    | nil =>
      dsimp only at ho
      rw [if_neg (by decide)] at ho
      split at ho
      · cases ho
      · obtain ⟨hok, -⟩ := Prod.mk.inj (Option.some.inj ho)
        obtain ⟨-, rfl⟩ := Prod.mk.inj (Except.ok.inj hok)
        rfl
    | cons p next =>
      -- the item is no directory
      dsimp only at ho
      rw [if_neg (by decide)] at ho
      dsimp only at ho
      rw [if_pos (by decide)] at ho
      cases ho
  · rw [pathLoop, hfind] at ho
    dsimp only at ho
    rw [if_pos (by decide)] at ho
    cases ho

/-! ## 3. The last slot -/

/-- The file layer over the small volume, with room in a heap below 2 GiB. -/
structure SmallFiles (s : Files FileHandle) (blocks : Nat) : Prop where
  disk : s.disk = some (fat32Fs oneFileVolume smallPrivate 1)
  placed : s.kernel.heap.Placed
  low : s.kernel.heap.saddr + s.kernel.heap.table.total * 4096 < 2147483648
  free : freeBlocks s.kernel.heap = blocks

/-- `"0:/a"` and `"r"`. -/
def pathA : List UInt8 := [0x30, 0x3A, 0x2F, 0x61]
def modeR : List UInt8 := [0x72]

theorem parserKeeps_low (n : Nat) : ParserKeeps fun k =>
    k.heap.saddr + k.heap.table.total * 4096 < n where
  alloc {k} size _ _ h := by
    rw [kzalloc_heap, heapMalloc_saddr, heapMalloc_total]
    exact h
  giveBack {k} h := by
    have e : (kfree (kzalloc k 108).2 (kzalloc k 108).1).heap =
        heapFree (heapMalloc k.heap 108).2 (kzalloc k 108).1 := by
      rw [← kzalloc_heap]
      rfl
    rw [e, heapFree_saddr, heapFree_total, heapMalloc_saddr, heapMalloc_total]
    exact h

section OpenA

variable {s : Files FileHandle} {blocks : Nat}

/-- The path takes three blocks, the handle one. -/
theorem openA_private (hs : SmallFiles s (blocks + 5)) :
    ∃ ptr k, fopenPrivate s pathA modeR =
        some (.ok (fat32Fs oneFileVolume smallPrivate 1, ptr, FileHandle.ofItem oneFileItem), k) ∧
      SmallFiles { s with kernel := k } (blocks + 1) := by
  have hfree := hs.free
  have hcomp : pathComponents pathA = [[0x61]] := by decide
  obtain ⟨root, k₁, hparse, hdrive, hfirst, hp₁, hf₁⟩ := pathparserParse_components hs.placed
    (show strlen pathA ≤ 108 by decide) (show StartsWithDrive pathA from ⟨rfl, rfl, rfl⟩)
    (by rw [hcomp, hfree]; show 4 ≤ blocks + 5; omega)
  rw [hcomp] at hfirst hf₁
  have hlow₁ : k₁.heap.saddr + k₁.heap.table.total * 4096 < 2147483648 := by
    have h := pathparserParse_keeps (parserKeeps_low 2147483648) hs.low pathA
    rwa [hparse] at h
  obtain ⟨part, next, hroot⟩ : ∃ part next, root.first = part :: next := by
    cases hr : root.first with
    | nil =>
      rw [hr] at hfirst
      cases hfirst
    | cons part next => exact ⟨part, next, rfl⟩
  rw [hroot, List.map_cons, List.cons.injEq] at hfirst
  obtain ⟨ptr, k₂, halloc, hgrows, hne, -⟩ := kzalloc_grows (HeapInv.nil hp₁)
    (by have : freeBlocks k₁.heap + 3 = _ := hf₁; omega) 24 (by decide) (by decide)
  have hptr : i32 ptr = ptr := by
    have hin := hgrows.inv.inside List.mem_cons_self
    have haddr := hgrows.inv.addr _ List.mem_cons_self
    have hsaddr := hgrows.saddr
    have htotal := hgrows.total
    dsimp only at haddr
    exact i32_natCast_of_lt (by omega)
  refine ⟨ptr, k₂, ?_, hs.disk, hgrows.inv.placed, ?_, ?_⟩
  · have hopen : (fat32Fs oneFileVolume smallPrivate 1).openFn k₁ part next .read =
        some (.ok (ptr, FileHandle.ofItem oneFileItem), k₂) := by
      rw [fat32Fs_open, hfirst.1, hfirst.2]
      unfold fat32Open
      rw [if_neg (by decide), oneFileVolume_item]
      dsimp only
      rw [if_neg (by decide), halloc, if_neg hne]
    have hmode : fileGetModeByString modeR = .read := by decide
    have hd : diskGet s root.driveNo = some (some (fat32Fs oneFileVolume smallPrivate 1)) := by
      rw [hdrive, diskGet, if_neg (by decide), hs.disk]
    unfold fopenPrivate
    rw [hparse]
    dsimp only
    rw [hroot]
    dsimp only
    rw [hd]
    dsimp only
    rw [hmode, if_neg (by decide), hopen]
    dsimp only
    rw [hptr, if_neg (by omega)]
  · show k₂.heap.saddr + k₂.heap.table.total * 4096 < 2147483648
    rw [hgrows.saddr, hgrows.total]
    exact hlow₁
  · have h3 : freeBlocks k₁.heap + 3 = freeBlocks s.kernel.heap := hf₁
    have h4 : freeBlocks k₂.heap + 1 = freeBlocks k₁.heap := hgrows.free
    show freeBlocks k₂.heap = blocks + 1
    omega

/-- **The file is opened once more**, in the first empty slot. -/
theorem openA (hs : SmallFiles s (blocks + 5)) {i : Nat} (hi : freeSlot s = some i) :
    ∃ d s', fopen s pathA modeR = some ((i : Int) + 1, s') ∧
      Creates s pathA modeR ((i : Int) + 1) d ∧ SmallFiles s' blocks ∧
      s'.fileDescriptors = (s.set i (some d)).fileDescriptors := by
  obtain ⟨ptr, k, hpriv, hk⟩ := openA_private hs
  have hplaced : k.heap.Placed := hk.placed
  have hfree : freeBlocks k.heap = blocks + 1 := hk.free
  have hlow : k.heap.saddr + k.heap.table.total * 4096 < 2147483648 := hk.low
  obtain ⟨desc, k', halloc, hne, hp', hf'⟩ := kzalloc_one hplaced (by omega) 16 (by decide)
    (by decide)
  have h16 : (kzalloc k 16).2 = k' := congrArg Prod.snd halloc
  refine ⟨⟨(kzalloc k 16).1, i + 1, _, _⟩, _,
    fopen_granted hpriv hi (by rw [halloc]; exact hne), ⟨_, _, k, hpriv, rfl⟩,
    ⟨hs.disk, ?_, ?_, ?_⟩, rfl⟩
  · exact h16 ▸ hp'
  · exact (parserKeeps_low 2147483648).alloc 16 (by decide) (by decide) hlow
  · show freeBlocks (kzalloc k 16).2.heap = blocks
    rw [h16]
    omega

/-- **The file opened `n` times**: the first `n` slots are taken. -/
theorem openA_times {k : Kernel} {disk : Option (Filesystem FileHandle)} (n : Nat) (hn : n ≤ 512)
    (hs : SmallFiles (fsInit k disk) (blocks + 5 * n)) :
    ∃ s opened, FileRun (fun _ _ _ => True) (fsInit k disk) s opened ∧ SmallFiles s blocks ∧
      (∀ j, s.fileDescriptors j = none ↔ n ≤ j) ∧ (0 < n → ∃ c, ((n : Int), c) ∈ opened) := by
  induction n generalizing blocks with
  | zero =>
    exact ⟨_, [], .start, hs, fun j => ⟨fun _ => Nat.zero_le j, fun _ => rfl⟩,
      fun h => absurd h (Nat.lt_irrefl 0)⟩
  | succ n ih =>
    have hblocks : blocks + 5 * (n + 1) = blocks + 5 + 5 * n := by omega
    rw [hblocks] at hs
    obtain ⟨s, opened, hrun, hs', hslots, -⟩ := ih (by omega) hs
    have hfree : freeSlot s = some n := by
      refine List.find?_range_eq_some.mpr ⟨?_, List.mem_range.mpr (by omega), fun j hj => ?_⟩
      · rw [(hslots n).mpr (Nat.le_refl n)]
        rfl
      · cases hd : s.fileDescriptors j with
        | none => exact absurd ((hslots j).mp hd) (Nat.not_le.mpr hj)
        | some d => rfl
    obtain ⟨d, s', hopen, hd, hs'', hfd⟩ := openA hs' hfree
    refine ⟨s', _, .opens hrun trivial hopen (by omega) hd, hs'', fun j => ?_,
      fun _ => ⟨d, by push_cast; exact List.mem_cons_self⟩⟩
    rw [hfd]
    by_cases hj : j = n
    · subst hj
      rw [Files.set_self]
      exact ⟨fun h => absurd h (Option.some_ne_none d), fun h => absurd h (by omega)⟩
    · rw [Files.set_other hj, hslots j]
      omega

end OpenA

/-- The kernel behind `fat32_resolve` of the small volume: three blocks are taken. -/
def smallKernel : Kernel := (fat32Resolve bootKernel oneFileVolume).2.2

theorem smallKernel_files :
    SmallFiles (fsInit smallKernel (some (fat32Fs oneFileVolume smallPrivate 1))) 25597 := by
  have hplaced : bootKernel.heap.Placed := kernelHeap_placed _
  have hfree : freeBlocks bootKernel.heap = 25600 := kernelHeap_freeBlocks _
  have hheader : readHeader oneFileVolume = ⟨512, 1, 1, 1, 1, 2, 0x29⟩ := by decide +kernel
  obtain ⟨p₁, k₁, e₁, h₁, hp₁, hf₁⟩ := kzalloc_one hplaced (by rw [hfree]; decide) 104 (by decide)
    (by decide)
  rw [hfree] at hf₁
  obtain ⟨p₂, k₂, e₂, h₂, hp₂, hf₂⟩ := kzalloc_one hp₁ (by omega) 8 (by decide) (by decide)
  obtain ⟨p₃, k₃, e₃, h₃, hp₃, hf₃⟩ := kzalloc_one hp₂ (by omega) 512 (by decide) (by decide)
  have hlow : bootKernel.heap.saddr + bootKernel.heap.table.total * 4096 < 2147483648 := by decide
  have hl₁ := (parserKeeps_low 2147483648).alloc 104 (by decide) (by decide) hlow
  rw [e₁] at hl₁
  have hl₂ := (parserKeeps_low 2147483648).alloc 8 (by decide) (by decide) hl₁
  rw [e₂] at hl₂
  have hl₃ := (parserKeeps_low 2147483648).alloc 512 (by decide) (by decide) hl₂
  rw [e₃] at hl₃
  have hk : smallKernel = k₃ := by
    unfold smallKernel fat32Resolve
    dsimp only
    rw [e₁, e₂, hheader, if_neg h₂, if_neg (by decide)]
    dsimp only
    rw [show (512 : UInt16).toNat * (1 : UInt8).toNat = 512 from rfl, e₃, if_neg h₃]
  refine ⟨rfl, ?_, ?_, ?_⟩
  · exact hk ▸ hp₃
  · exact hk ▸ hl₃
  · show freeBlocks smallKernel.heap = 25597
    rw [hk]
    omega

/-- **The 512th file**: `fopen` answers 512, and no other call takes it. -/
theorem fileRun_last_slot : ∃ s opened c,
    FileRun (fun _ _ _ => True)
      (fsInit smallKernel (some (fat32Fs oneFileVolume smallPrivate 1))) s opened ∧
    (512, c) ∈ opened ∧ fclose s 512 = (- EIO, s) ∧ fread s 1 1 512 = some (-EINVARG, [], s) ∧
    fstat s 512 = (- EIO, none) ∧ fseek s 512 0 SEEK_SET = some (- EIO, s) := by
  obtain ⟨s, opened, hrun, -, -, hlast⟩ := openA_times 512 (Nat.le_refl 512)
    (show SmallFiles _ (23037 + 5 * 512) from smallKernel_files)
  obtain ⟨c, hc⟩ := hlast (by decide)
  exact ⟨s, opened, c, hrun, hc, rfl, rfl, rfl, rfl⟩

/-- The first file, which fits. -/
theorem fileRun_descriptors_one : ∃ s c d,
    FileRun FopenFits (fsInit smallKernel (some (fat32Fs oneFileVolume smallPrivate 1))) s
      [(1, c)] ∧
    d.Same c ∧ Accepts s 1 d := by
  have hs := smallKernel_files
  obtain ⟨ptr, k, hpriv, hk⟩ := openA_private (show SmallFiles _ (25592 + 5) from hs)
  obtain ⟨c, s, hopen, hc, -, -⟩ := openA (show SmallFiles _ (25592 + 5) from hs)
    (show freeSlot _ = some 0 from List.find?_range_eq_some.mpr
      ⟨rfl, List.mem_range.mpr (by decide), fun j hj => absurd hj (Nat.not_lt_zero j)⟩)
  have hfits : FopenFits (fsInit smallKernel (some (fat32Fs oneFileVolume smallPrivate 1)))
      pathA modeR := by
    refine ⟨⟨0, by decide, rfl⟩, fun r k' hr => ?_⟩
    obtain ⟨-, rfl⟩ := Prod.mk.inj (Option.some.inj (hpriv.symm.trans hr))
    have hfree : freeBlocks k.heap = 25592 + 1 := hk.free
    omega
  have hrun := FileRun.opens .start hfits hopen (by decide) hc
  obtain ⟨d, hsame, hacc⟩ := (fileRun_descriptors hs.placed hrun).2.1 _ _ List.mem_cons_self
  exact ⟨s, c, d, hrun, hsame, hacc⟩

end PeachKernel
