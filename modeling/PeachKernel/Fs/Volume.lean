/-
  File:      PeachKernel/Fs/Volume.lean
  Subject:   The file layer over a FAT32 volume is a table of byte strings with a place in each.

  * `StoredFile`, `storedBytes` -- the bytes of a file by the FAT and the data area;
  * `SoundVolume`, `volumeOf` -- a FAT32 volume, and what its paths lead to;
  * `FileCallStep` -- the calls of the file layer;
  * `fileCalls_refine` -- every run of these calls is one on the volume;
  * `fileCalls_inOrder` -- what is read of a file is the file;
  * `volume_file_read` -- every file of the volume can be opened, read and closed.
-/
import PeachKernel.Fs.ByteFiles
import PeachKernel.Fs.Fat32File
import PeachKernel.Fs.Fat32Lookup
import PeachKernel.Fs.Fat32Seek
import PeachKernel.Fs.Fat32Turns

namespace PeachKernel

open CInt Mem

/-! ## 1. Files on the disk -/

/-- Byte `i` of the file that starts at a cluster, by the links in the FAT. -/
def storedByte (d : Disk) (fs : Fat32Private) (start : Nat) : Nat → UInt8 :=
  pieced (fun k => clusterByte d fs ((follow (fatNext d fs) start k).getD 0)) fs.clusterSizeBytes

/-- The bytes of the file of an item. -/
def storedBytes (d : Disk) (fs : Fat32Private) (item : DirectoryItem) : List UInt8 :=
  slice (storedByte d fs (getDirectoryItemTargetClusterId item)) 0 item.filesize

/-- The chain of a file has the clusters that its size needs, inside the image, and links that the
    driver can follow: it keeps 8 bits of them. -/
structure StoredFile (d : Disk) (fs : Fat32Private) (start fileSize imageSize : Nat) : Prop where
  cluster : ∀ k, k * fs.clusterSizeBytes < fileSize → ∃ c, follow (fatNext d fs) start k = some c ∧
    c ≠ 0 ∧ 0 ≤ fs.dataPos c ∧ fs.dataPos c + fs.clusterSizeBytes ≤ imageSize
  link : ∀ k c, (k + 1) * fs.clusterSizeBytes < fileSize → follow (fatNext d fs) start k = some c →
    fs.entryPos c + 4 < 2147483648 ∧ fatEntry d fs c &&& 0x0FFFFFFF < 256

section Stored

variable {d : Disk} {fs : Fat32Private} {start fileSize imageSize : Nat}

/-- A short link is followed as it is stored. -/
theorem getNextClusterId_link {c c' : Nat} (hpos : fs.entryPos c + 4 < 2147483648)
    (hshort : fatEntry d fs c &&& 0x0FFFFFFF < 256) (hnext : fatNext d fs c = some c') :
    getNextClusterId d fs c = c' := by
  unfold fatNext at hnext
  unfold getNextClusterId
  rw [getClusterValue_eq hpos]
  dsimp only at hnext ⊢
  have hne : fatEntry d fs c ≠ 0x0FFFFFF8 := by
    intro e
    rw [e] at hshort
    exact absurd hshort (by decide)
  rw [if_neg (by omega)] at hnext
  have elink := Option.some.inj hnext
  rw [elink] at hshort
  rw [if_neg hne, elink]
  unfold u8
  omega

/-- **The driver walks along the stored chain.** Induction on the place in it. -/
theorem StoredFile.chainCluster_eq (h : StoredFile d fs start fileSize imageSize) (k : Nat) :
    ∀ {c : Nat}, k * fs.clusterSizeBytes < fileSize → follow (fatNext d fs) start k = some c →
      chainCluster d fs start k = c := by
  induction k with
  | zero => exact fun _ hc => Option.some.inj hc
  | succ k ih =>
    intro c hk hc
    have hle : k * fs.clusterSizeBytes < fileSize :=
      lt_of_le_of_lt (Nat.mul_le_mul_right _ (Nat.le_succ k)) hk
    obtain ⟨c', hc', -⟩ := h.cluster k hle
    obtain ⟨hpos, hshort⟩ := h.link k c' hk hc'
    unfold chainCluster
    rw [Function.iterate_succ_apply']
    have hprev : (getNextClusterId d fs)^[k] start = c' := ih hle hc'
    rw [hprev]
    exact getNextClusterId_link hpos hshort ((follow_next hc').symm.trans hc)

theorem StoredFile.chainInside (h : StoredFile d fs start fileSize imageSize) :
    ChainInside d fs start fileSize imageSize := by
  intro k hk
  obtain ⟨c, hc, h0, hrange⟩ := h.cluster k hk
  rw [h.chainCluster_eq k hk hc]
  exact ⟨h0, hrange⟩

/-- **What the driver reads is what is stored.** -/
theorem StoredFile.bytes_eq (h : StoredFile d fs start fileSize imageSize) :
    slice (chainByte d fs start) 0 fileSize = slice (storedByte d fs start) 0 fileSize := by
  refine slice_congr fun i hi => ?_
  have hk : (0 + i) / fs.clusterSizeBytes * fs.clusterSizeBytes < fileSize :=
    lt_of_le_of_lt (Nat.div_mul_le_self _ _) (by omega)
  obtain ⟨c, hc, -⟩ := h.cluster _ hk
  unfold chainByte storedByte pieced
  dsimp only
  rw [h.chainCluster_eq _ hk hc, hc, Option.getD_some]

end Stored

/-- **What a text leads to**: the item of a path of at most 108 characters on drive 0. -/
structure LeadsTo (d : Disk) (fs : Fat32Private) (filename : List UInt8) (item : DirectoryItem) :
    Prop where
  len_le : strlen filename ≤ 108
  starts : StartsWithDrive filename
  drive : tonumericdigit (filename.headD 0) = 0
  path : ∃ part next, pathComponents filename = part :: next ∧
    Resolves d fs (clusterItems d fs) fs.header.bpbRootClus.toNat part next item

/-- The volume on the disk. -/
def volumeOf (d : Disk) (fs : Fat32Private) : Volume := fun filename bytes =>
  ∃ item, LeadsTo d fs filename item ∧ bytes = storedBytes d fs item

/-- **A volume that the driver can read**: it is the one that `fat32_resolve` took, its image is
    below 2 GiB, a cluster has whole directory items, and what a path leads to is stored in it. -/
structure SoundVolume (d : Disk) (fs : Fat32Private) (imageSize : Nat) : Prop where
  resolved : ∃ k, (fat32Resolve k d).2.1 = some fs
  image_lt : imageSize < 2147483648
  whole : 32 ∣ fs.clusterSizeBytes
  stored : ∀ filename item, LeadsTo d fs filename item →
    StoredFile d fs (getDirectoryItemTargetClusterId item) item.filesize imageSize

/-! ## 2. Opening -/

/-- A slot is empty, and the path, the driver's part and the descriptor get their blocks. -/
def FopenRoom {π : Type} (s : Files π) (filename : List UInt8) : Prop :=
  (∃ i, i < 511 ∧ s.fileDescriptors i = none) ∧
    2 * (pathComponents filename).length + 4 ≤ freeBlocks s.kernel.heap

/-- A heap below 2 GiB. -/
structure LowHeap (k : Kernel) : Prop where
  placed : k.heap.Placed
  low : k.heap.saddr + k.heap.table.total * 4096 < 2147483648

theorem parserKeeps_lowHeap : ParserKeeps LowHeap where
  alloc size h1 h2 h := ⟨parserKeeps_placed.alloc size h1 h2 h.placed,
    (parserKeeps_low 2147483648).alloc size h1 h2 h.low⟩
  giveBack h := ⟨parserKeeps_placed.giveBack h.placed, (parserKeeps_low 2147483648).giveBack h.low⟩

theorem LowHeap.free {k : Kernel} (h : LowHeap k) (ptr : Nat) : LowHeap (kfree k ptr) := by
  refine ⟨h.placed.free ptr, ?_⟩
  show (heapFree k.heap ptr).saddr + (heapFree k.heap ptr).table.total * 4096 < 2147483648
  rw [heapFree_saddr, heapFree_total]
  exact h.low

section Opening

variable {d : Disk} {fs : Fat32Private} {fuel imageSize : Nat} {s : Files FileHandle}
  {filename modeStr : List UInt8}

/-- What `fopen` makes of the driver's answer. -/
def openAnswer {π : Type} (filesystem : Filesystem π) :
    Except Int (Nat × π) × Kernel → Except Int (Filesystem π × Nat × π) × Kernel
  | (.error e, k) => (.error e, k)
  | (.ok (ptr, p), k) =>
    if i32 ptr < 0 then (.error (i32 ptr), k) else (.ok (filesystem, ptr, p), k)

/-- **The way to the driver**: the parser gives the components, the disk is the one of drive 0. -/
theorem fopenPrivate_driver {root : PathRoot} {part : PathPart} {next : List PathPart} {k₁ : Kernel}
    (hparse : pathparserParse s.kernel filename = (some root, k₁))
    (hfirst : root.first = part :: next) (hdrive : root.driveNo = 0)
    (hdisk : s.disk = some (fat32Fs d fs fuel)) (hmode : fileGetModeByString modeStr = .read) :
    fopenPrivate s filename modeStr =
      (fat32Open k₁ d fs fuel part.text (next.map PathPart.text) .read).map
        (openAnswer (fat32Fs d fs fuel)) := by
  have hget : diskGet s root.driveNo = some (some (fat32Fs d fs fuel)) := by
    rw [hdrive, diskGet, if_neg (by decide), hdisk]
  unfold fopenPrivate
  rw [hparse]
  dsimp only
  rw [hfirst]
  dsimp only
  rw [hget]
  dsimp only
  rw [hmode, if_neg (by decide), fat32Fs_open]
  rcases fat32Open k₁ d fs fuel part.text (next.map PathPart.text) .read with
    _ | ⟨e | ⟨ptr, handle⟩, k₂⟩
  · rfl
  · rfl
  · rw [Option.map_some]
    unfold openAnswer
    dsimp only
    split <;> rfl

/-- The walk along a path ends at what the path leads to. -/
theorem getPathDirectoryItem_cases (hv : SoundVolume d fs imageSize) {mem : Mem} {part : List UInt8}
    {next : List (List UInt8)} {item : DirectoryItem}
    (h : getPathDirectoryItem mem d fs fuel part next = some item) :
    Resolves d fs (clusterItems d fs) fs.header.bpbRootClus.toNat part next item ∨
      (Unresolved d fs (clusterItems d fs) fs.header.bpbRootClus.toNat part next ∧
        item = DirectoryItem.zero) := by
  obtain ⟨k, hr⟩ := hv.resolved
  have hlt := fat32Resolve_size_lt hr
  have hbuf : bufItems mem d fs = clusterItems d fs := bufItems_eq hv.whole (by omega)
  rw [← hbuf]
  exact (pathLoop_some next h).2

/-- **A path that leads to an item is opened**, where the handle gets its block. -/
theorem fat32Open_leads (hv : SoundVolume d fs imageSize) {k k' : Kernel} (hk : LowHeap k)
    (hf : 0 < freeBlocks k.heap) {part : List UInt8} {next : List (List UInt8)}
    {item : DirectoryItem}
    (hitem : Resolves d fs (clusterItems d fs) fs.header.bpbRootClus.toNat part next item)
    {r : Except Int (Nat × FileHandle)} (h : fat32Open k d fs fuel part next .read = some (r, k')) :
    ∃ ptr, r = .ok (ptr, FileHandle.ofItem item) ∧ ¬ i32 ptr < 0 ∧ LowHeap k' ∧
      freeBlocks k'.heap + 1 = freeBlocks k.heap := by
  obtain ⟨ptr, k₁, halloc, hgrows, hne, -⟩ :=
    kzalloc_grows (HeapInv.nil hk.placed) hf 24 (by decide)
    (by decide)
  have hlow : LowHeap k₁ := by
    have h24 := parserKeeps_lowHeap.alloc 24 (by decide) (by decide) hk
    rwa [halloc] at h24
  have hptr : ¬ i32 ptr < 0 := by
    have hin := hgrows.inv.inside List.mem_cons_self
    have haddr := hgrows.inv.addr _ List.mem_cons_self
    have := hlow.low
    dsimp only at haddr
    rw [i32_natCast_of_lt (by omega)]
    omega
  unfold fat32Open at h
  rw [if_neg (by decide)] at h
  cases hwalk : getPathDirectoryItem k.mem d fs fuel part next with
  | none =>
    rw [hwalk] at h
    cases h
  | some item' =>
    have e : item' = item := by
      rcases getPathDirectoryItem_cases hv hwalk with hres | ⟨hno, -⟩
      · exact hitem.unique hres
      · exact absurd hno hitem.not_unresolved
    subst e
    rw [hwalk] at h
    dsimp only at h
    rw [if_neg hitem.not_last, halloc, if_neg hne] at h
    obtain ⟨rfl, rfl⟩ := Prod.mk.inj (Option.some.inj h)
    exact ⟨ptr, rfl, hptr, hlow, hgrows.free⟩

/-- **What is opened is what the path leads to.** -/
theorem fat32Open_found (hv : SoundVolume d fs imageSize) {k k' : Kernel} {mode : FileMode}
    {part : List UInt8} {next : List (List UInt8)} {ptr : Nat} {handle : FileHandle}
    (h : fat32Open k d fs fuel part next mode = some (.ok (ptr, handle), k')) :
    mode = .read ∧ ∃ item, handle = FileHandle.ofItem item ∧
      Resolves d fs (clusterItems d fs) fs.header.bpbRootClus.toNat part next item := by
  unfold fat32Open at h
  split at h
  · cases h
  · next hmode =>
    refine ⟨not_not.mp hmode, ?_⟩
    split at h
    · cases h
    · next item hwalk =>
      split at h
      · cases h
      · next hname =>
        dsimp only at h
        split at h
        · cases h
        · obtain ⟨hok, -⟩ := Prod.mk.inj (Option.some.inj h)
          obtain ⟨-, rfl⟩ := Prod.mk.inj (Except.ok.inj hok)
          rcases getPathDirectoryItem_cases hv hwalk with hres | ⟨-, rfl⟩
          · exact ⟨item, rfl, hres⟩
          · exact absurd rfl hname

theorem fopenPrivate_lowHeap (hk : LowHeap s.kernel) (hdisk : s.disk = some (fat32Fs d fs fuel))
    {r : Except Int (Filesystem FileHandle × Nat × FileHandle)} {k : Kernel}
    (h : fopenPrivate s filename modeStr = some (r, k)) : LowHeap k := by
  have hparse := pathparserParse_keeps parserKeeps_lowHeap hk filename
  rcases fopenPrivate_cases h with ⟨_, -, -, rfl⟩ | ⟨_, _, _, filesystem, _, -, -, -, hd, hopen, -⟩
  · exact hparse
  · obtain rfl := Option.some.inj (hdisk.symm.trans hd)
    rw [fat32Fs_open] at hopen
    rcases fat32Open_cases hopen with ⟨_, -, -, rfl⟩ | ⟨rfl, -⟩
    · exact hparse
    · exact parserKeeps_lowHeap.alloc 24 (by decide) (by decide) hparse

/-- **A text that leads to an item gets to the driver**, which is asked for its components. -/
theorem LeadsTo.driver (hk : LowHeap s.kernel) (hdisk : s.disk = some (fat32Fs d fs fuel))
    (hroom : FopenRoom s filename) (hmode : fileGetModeByString modeStr = .read)
    {item : DirectoryItem} (hitem : LeadsTo d fs filename item) :
    ∃ k₁ part next, LowHeap k₁ ∧ 2 ≤ freeBlocks k₁.heap ∧ pathComponents filename = part :: next ∧
      Resolves d fs (clusterItems d fs) fs.header.bpbRootClus.toNat part next item ∧
      fopenPrivate s filename modeStr =
        (fat32Open k₁ d fs fuel part next .read).map (openAnswer (fat32Fs d fs fuel)) := by
  obtain ⟨part, next, hcomp, hres⟩ := hitem.path
  have hfree := hroom.2
  obtain ⟨root, k₁, hparse, hdrive, hfirst, hp₁, hf₁⟩ := pathparserParse_components hk.placed
    hitem.len_le hitem.starts (by omega)
  have hlow₁ : LowHeap k₁ := by
    have hkeep := pathparserParse_keeps parserKeeps_lowHeap hk filename
    rwa [hparse] at hkeep
  rw [hcomp] at hfirst
  obtain ⟨part', next', hroot⟩ : ∃ part' next', root.first = part' :: next' := by
    cases hr : root.first with
    | nil =>
      rw [hr] at hfirst
      cases hfirst
    | cons part' next' => exact ⟨part', next', rfl⟩
  rw [hroot, List.map_cons, List.cons.injEq] at hfirst
  have hopen := fopenPrivate_driver hparse hroot (hdrive.trans hitem.drive) hdisk hmode
  rw [hfirst.1, hfirst.2] at hopen
  exact ⟨k₁, part, next, hlow₁, by omega, hcomp, hres, hopen⟩

/-- **A text that leads to an item gets to `file_new_descriptor`**, in a heap with a block left. -/
theorem fopenPrivate_leads (hv : SoundVolume d fs imageSize) (hk : LowHeap s.kernel)
    (hdisk : s.disk = some (fat32Fs d fs fuel)) (hroom : FopenRoom s filename)
    (hmode : fileGetModeByString modeStr = .read) {item : DirectoryItem}
    (hitem : LeadsTo d fs filename item)
    {r : Except Int (Filesystem FileHandle × Nat × FileHandle)} {k : Kernel}
    (h : fopenPrivate s filename modeStr = some (r, k)) :
    ∃ ptr, r = .ok (fat32Fs d fs fuel, ptr, FileHandle.ofItem item) ∧
      Cursor fs (FileHandle.ofItem item) ∧ LowHeap k ∧ 0 < freeBlocks k.heap := by
  obtain ⟨kr, hres₀⟩ := hv.resolved
  obtain ⟨k₁, part, next, hlow₁, hf₁, -, hres, heq⟩ := hitem.driver hk hdisk hroom hmode
  rw [heq] at h
  obtain ⟨⟨r', k'⟩, hopen, hanswer⟩ := Option.map_eq_some_iff.mp h
  obtain ⟨ptr, rfl, hptr, hlow, hf⟩ := fat32Open_leads hv hlow₁ (by omega) hres hopen
  unfold openAnswer at hanswer
  dsimp only at hanswer
  rw [if_neg hptr] at hanswer
  obtain ⟨rfl, rfl⟩ := Prod.mk.inj hanswer
  exact ⟨ptr, rfl, cursor_of_open hres₀ hopen, hlow, by omega⟩

/-- **What gets there is a file of the volume.** -/
theorem fopenPrivate_found (hv : SoundVolume d fs imageSize) (hk : LowHeap s.kernel)
    (hdisk : s.disk = some (fat32Fs d fs fuel)) (hroom : FopenRoom s filename)
    {x : Filesystem FileHandle × Nat × FileHandle} {k : Kernel}
    (h : fopenPrivate s filename modeStr = some (.ok x, k)) :
    fileGetModeByString modeStr = .read ∧ ∃ item, LeadsTo d fs filename item := by
  rcases fopenPrivate_cases h with ⟨e, -, hbad, -⟩ |
    ⟨root, part, next, filesystem, r', hparse, hfirst, hdrive, hd, hopen, hr⟩
  · cases hbad
  obtain rfl := Option.some.inj (hdisk.symm.trans hd)
  rcases hr with ⟨e, -, hbad⟩ | ⟨⟨ptr, handle⟩, rfl, -⟩
  · cases hbad
  rw [fat32Fs_open] at hopen
  obtain ⟨hmode, item, -, hres⟩ := fat32Open_found hv hopen
  refine ⟨hmode, item, ?_⟩
  rcases pathparserParse_cases s.kernel filename with ⟨-, hnone⟩ | ⟨hlen, hstarts, -⟩
  · rw [hnone] at hparse
    cases hparse
  · have hfree := hroom.2
    obtain ⟨root', k₁, hparse', hdrive', hfirst', -⟩ :=
      pathparserParse_components hk.placed hlen hstarts
      (by omega)
    rw [hparse'] at hparse
    obtain rfl := Option.some.inj hparse
    rw [hfirst, List.map_cons] at hfirst'
    exact ⟨hlen, hstarts, hdrive'.symm.trans hdrive, _, _, hfirst'.symm, hres⟩

end Opening

/-! ## 3. Open files -/

/-- A handle of the driver and the open file that it stands for. -/
structure HandleOf (d : Disk) (fs : Fat32Private) (imageSize : Nat) (h : FileHandle)
    (f : OpenBytes) : Prop where
  cursor : Cursor fs h
  inside : ChainInside d fs h.startingCluster h.fileSize imageSize
  bytes : f.bytes = slice (chainByte d fs h.startingCluster) 0 h.fileSize
  pos : f.pos = h.filePos
  placed : f.placed = true → h = h.rewound.moved d fs h.filePos

section Handles

variable {d : Disk} {fs : Fat32Private} {fuel imageSize : Nat} {h : FileHandle} {f : OpenBytes}

theorem HandleOf.length (hh : HandleOf d fs imageSize h f) : f.bytes.length = h.fileSize := by
  rw [hh.bytes, slice_length]

/-- A handle further on in the same file. -/
theorem HandleOf.moved (hh : HandleOf d fs imageSize h f) {n : Nat}
    (hn : h.filePos + n ≤ h.fileSize) :
    HandleOf d fs imageSize (h.moved d fs n) { f with pos := f.pos + n } where
  cursor := hh.cursor.moved hn
  inside := hh.inside
  bytes := hh.bytes
  pos := congrArg (· + n) hh.pos
  placed hp := by
    have e := congrArg (fun h => FileHandle.moved d fs h n) (hh.placed hp)
    rw [moved_moved] at e
    exact e

/-- A handle whose cluster was moved, and not its place. -/
theorem HandleOf.skipped (hh : HandleOf d fs imageSize h f) (n : Nat) :
    HandleOf d fs imageSize (h.skipped d fs n) { f with placed := f.placed && n == 0 } where
  cursor := hh.cursor.skipped n
  inside := hh.inside
  bytes := hh.bytes
  pos := hh.pos
  placed hp := by
    obtain ⟨hplaced, hn⟩ := (Bool.and_eq_true _ _).mp hp
    obtain rfl := of_decide_eq_true hn
    rw [skipped_zero hh.cursor]
    exact hh.placed hplaced

theorem HandleOf.rewound (hh : HandleOf d fs imageSize h f) :
    HandleOf d fs imageSize h.rewound { f with pos := 0, placed := true } where
  cursor := hh.cursor.rewound
  inside := hh.inside
  bytes := hh.bytes
  pos := rfl
  placed _ := (moved_zero hh.cursor.rewound).symm

/-- **A file that was just opened.** -/
theorem handleOf_item (hv : SoundVolume d fs imageSize) {filename : List UInt8}
    {item : DirectoryItem} (hitem : LeadsTo d fs filename item)
    (hc : Cursor fs (FileHandle.ofItem item)) :
    HandleOf d fs imageSize (FileHandle.ofItem item) ⟨storedBytes d fs item, 0, true⟩ where
  cursor := hc
  inside := (hv.stored filename item hitem).chainInside
  bytes := (hv.stored filename item hitem).bytes_eq.symm
  pos := rfl
  placed _ := (moved_zero hc.rewound).symm

/-- More turns do not change what a call answers. -/
theorem fat32ReadInternal_mono (fuel : Nat) : ∀ {left : Nat} {h : FileHandle} {r : ReadResult}
    {fuel' : Nat}, fuel ≤ fuel' → fat32ReadInternal d fs fuel left h = some r →
      fat32ReadInternal d fs fuel' left h = some r := by
  induction fuel with
  | zero =>
    intro left h r fuel' _ hr
    cases hr
  | succ fuel ih =>
    intro left h r fuel' hle hr
    obtain ⟨m, rfl⟩ : ∃ m, fuel' = m + 1 := ⟨fuel' - 1, by omega⟩
    rw [fat32ReadInternal_turn] at hr ⊢
    split at hr
    · next hret => rwa [if_pos hret]
    · next hret =>
      obtain ⟨r', hr', rfl⟩ := Option.map_eq_some_iff.mp hr
      rw [if_neg hret, ih (by omega) hr', Option.map_some]

theorem readItems_mono {size fuel' : Nat} (hle : fuel ≤ fuel') (left : Nat) :
    ∀ {done : Int} {h : FileHandle} {r : ReadResult}, readItems d fs fuel size left done h =
      some r → readItems d fs fuel' size left done h = some r := by
  induction left with
  | zero => exact fun hr => hr
  | succ left ih =>
    intro done h r hr
    rw [readItems] at hr ⊢
    cases hblock : fat32ReadInternal d fs fuel size h with
    | none =>
      rw [hblock] at hr
      cases hr
    | some block =>
      rw [hblock] at hr
      rw [fat32ReadInternal_mono fuel hle hblock]
      dsimp only at hr ⊢
      split at hr
      · next h0 => rwa [if_pos h0]
      · next h0 =>
        obtain ⟨r', hr', rfl⟩ := Option.map_eq_some_iff.mp hr
        rw [if_neg h0, ih hr', Option.map_some]

/-- **A read of a file whose place is known.** -/
theorem HandleOf.reads (hv : SoundVolume d fs imageSize) (hh : HandleOf d fs imageSize h f)
    (hp : f.placed = true) {size nmemb : Nat} (hs : size ≠ 0) {r : ReadResult}
    (hr : fat32Read d fs fuel h size nmemb = some r) :
    r.status = i32 ((f.count size nmemb / size : Nat) : Int) ∧
      r.out = (f.bytes.drop f.pos).take (f.count size nmemb) ∧
      HandleOf d fs imageSize r.handle { f with pos := f.pos + f.count size nmemb } := by
  have hle := hh.cursor.pos_le
  have hr' := readItems_mono (Nat.le_max_left fuel size) nmemb hr
  obtain ⟨r', hread, hout, hhandle, hok⟩ := fat32Read_chain hv.image_lt
    (show ChainInside d fs h.rewound.currentCluster h.rewound.fileSize imageSize from hh.inside)
    hh.cursor.rewound rfl rfl rfl nmemb (Nat.one_le_iff_ne_zero.mpr hs)
      (Nat.le_max_right fuel size) hle
  rw [← hh.placed hp] at hread
  obtain rfl := Option.some.inj (hr'.symm.trans hread)
  have hcount : f.count size nmemb = min (size * nmemb) (h.fileSize - h.filePos) := by
    unfold OpenBytes.count
    rw [hh.length, hh.pos]
  have hend : h.filePos + f.count size nmemb ≤ h.fileSize := by omega
  have hbytes : r.out = slice (chainByte d fs h.startingCluster) h.filePos
      (f.count size nmemb) := by
    rw [hcount]
    exact hout
  have hmoved : r.handle = h.moved d fs (f.count size nmemb) := by
    rw [hcount, hhandle, ← moved_moved]
    exact congrArg (fun h => FileHandle.moved d fs h _) (hh.placed hp).symm
  refine ⟨?_, ?_, ?_⟩
  · rw [hok.status, hbytes, slice_length]
  · rw [hbytes, hh.bytes, hh.pos, take_drop_slice _ 0 hend, Nat.zero_add]
  · rw [hmoved]
    exact hh.moved hend

/-- **A seek**, as it is answered. -/
theorem HandleOf.seeks (hh : HandleOf d fs imageSize h f) {offset whence : Nat} {res : Int}
    {h' : FileHandle} (hlt : offset < 4294967296)
    (hs : fat32Seek d fs fuel h offset whence = some (res, h')) :
    res = (f.seek offset whence).1 ∧ HandleOf d fs imageSize h' (f.seek offset whence).2 := by
  unfold fat32Seek at hs
  unfold OpenBytes.seek
  rw [hh.length]
  by_cases hset : whence = SEEK_SET
  · rw [if_pos hset] at hs ⊢
    by_cases hin : offset < h.fileSize
    · rw [if_pos hin] at hs ⊢
      obtain ⟨rfl, rfl⟩ := Prod.mk.inj (Option.some.inj hs)
      exact ⟨rfl, hh⟩
    · rw [if_neg hin] at hs ⊢
      rcases fat32SeekCur_cases hh.cursor.rewound hs with ⟨hless, -, -⟩ | ⟨-, rfl, rfl⟩
      · have e : u32 ((h.rewound.filePos : Int) + offset) = 0 + offset :=
          u32_add_of_lt (a := 0) (by omega)
        rw [e, Nat.zero_add] at hless
        exact absurd hless hin
      · exact ⟨rfl, hh.rewound.skipped offset⟩
  rw [if_neg hset] at hs ⊢
  by_cases hend : whence = SEEK_END
  · rw [if_pos hend] at hs ⊢
    obtain ⟨rfl, rfl⟩ := Prod.mk.inj (Option.some.inj hs)
    exact ⟨rfl, hh⟩
  rw [if_neg hend] at hs ⊢
  by_cases hcur : whence = SEEK_CUR
  · rw [if_pos hcur] at hs ⊢
    rcases fat32SeekCur_cases hh.cursor hs with ⟨hless, rfl, rfl⟩ | ⟨hge, rfl, rfl⟩
    · rw [← hh.pos] at hless
      rw [if_pos hless]
      exact ⟨rfl, hh⟩
    · rw [← hh.pos] at hge
      rw [if_neg (Nat.not_lt.mpr hge)]
      exact ⟨rfl, hh.skipped offset⟩
  · rw [if_neg hcur] at hs ⊢
    obtain ⟨rfl, rfl⟩ := Prod.mk.inj (Option.some.inj hs)
    exact ⟨rfl, hh⟩

end Handles

/-! ## 4. Calls -/

/-- The calls of the file layer; an `fopen` finds room. -/
inductive FileCallStep {π : Type} : Files π → FileCall → Files π → Prop where
  | opens {s s' : Files π} {filename modeStr : List UInt8} {fd : Int} (hroom : FopenRoom s filename)
    (hr : fopen s filename modeStr = some (fd, s')) : FileCallStep s (.opens filename modeStr fd) s'
  | reads {s s' : Files π} {size nmemb : Nat} {fd res : Int} {out : List UInt8}
    (hr : fread s size nmemb fd = some (res, out, s')) :
    FileCallStep s (.reads size nmemb fd res out) s'
  | seeks {s s' : Files π} {fd offset res : Int} {whence : Nat}
    (hr : fseek s fd offset whence = some (res, s')) :
    FileCallStep s (.seeks fd offset whence res) s'
  | stats {s : Files π} {fd res : Int} {stat : Option FileStat} (hr : fstat s fd = (res, stat)) :
    FileCallStep s (.stats fd res stat) s
  | closes {s s' : Files π} {fd res : Int} (hr : fclose s fd = (res, s')) :
    FileCallStep s (.closes fd res) s'

/-- A slot and the open file that it stands for. -/
inductive SlotOf (d : Disk) (fs : Fat32Private) (imageSize : Nat) :
    Option (FileDescriptor FileHandle) → Option OpenBytes → Prop where
  | none : SlotOf d fs imageSize none none
  | some {desc : FileDescriptor FileHandle} {f : OpenBytes}
    (h : HandleOf d fs imageSize desc.priv.2 f) : SlotOf d fs imageSize (some desc) (some f)

/-- **The file layer stands for a table of open files.** -/
structure FilesOf (d : Disk) (fs : Fat32Private) (fuel imageSize : Nat) (s : Files FileHandle)
    (t : OpenTable) : Prop where
  heap : LowHeap s.kernel
  disk : s.disk = some (fat32Fs d fs fuel)
  index : ∀ {i : Nat} {desc : FileDescriptor FileHandle}, s.fileDescriptors i = some desc →
    desc.index = i + 1 ∧ desc.filesystem = fat32Fs d fs fuel
  slot : ∀ fd, SlotOf d fs imageSize (fileGetDescriptor s fd) (t fd)

section Calls

variable {d : Disk} {fs : Fat32Private} {fuel imageSize : Nat} {s s' : Files FileHandle}
  {t : OpenTable} {fd : Int}

theorem FilesOf.none_iff (hs : FilesOf d fs fuel imageSize s t) :
    fileGetDescriptor s fd = none ↔ t fd = none := by
  have h := hs.slot fd
  generalize fileGetDescriptor s fd = x at h ⊢
  generalize t fd = y at h ⊢
  cases h with
  | none => exact Iff.intro (fun _ => rfl) fun _ => rfl
  | some _ => exact Iff.intro (fun e => nomatch e) fun e => nomatch e

/-- The open file behind a descriptor. -/
theorem FilesOf.handle (hs : FilesOf d fs fuel imageSize s t) {desc : FileDescriptor FileHandle}
    (hd : fileGetDescriptor s fd = some desc) :
    ∃ f, t fd = some f ∧ HandleOf d fs imageSize desc.priv.2 f ∧ desc.index = fd ∧
      desc.filesystem = fat32Fs d fs fuel := by
  have h := hs.slot fd
  rw [hd] at h
  obtain ⟨h1, h2, hslot⟩ := fileGetDescriptor_some hd
  obtain ⟨hindex, hdriver⟩ := hs.index hslot
  generalize ht : t fd = y at h
  cases h with
  | some hh => exact ⟨_, rfl, hh, by omega, hdriver⟩

/-- The descriptor of an open file. -/
theorem FilesOf.descriptor (hs : FilesOf d fs fuel imageSize s t) {f : OpenBytes}
    (hf : t fd = some f) :
    ∃ desc, fileGetDescriptor s fd = some desc ∧ HandleOf d fs imageSize desc.priv.2 f ∧
      desc.filesystem = fat32Fs d fs fuel := by
  cases hd : fileGetDescriptor s fd with
  | none =>
    rw [hs.none_iff.mp hd] at hf
    cases hf
  | some desc =>
    obtain ⟨f', hf', hh, -, hdriver⟩ := hs.handle hd
    obtain rfl := Option.some.inj (hf.symm.trans hf')
    exact ⟨desc, rfl, hh, hdriver⟩

/-- **A slot changes**, and the open file with it. -/
theorem FilesOf.set (hs : FilesOf d fs fuel imageSize s t) {i : Nat} (hi : i < 511)
    (slot : Option (FileDescriptor FileHandle)) (f : Option OpenBytes)
    (hslot : ∀ desc, slot = some desc → desc.index = i + 1 ∧ desc.filesystem = fat32Fs d fs fuel)
    (hf : SlotOf d fs imageSize slot f) :
    FilesOf d fs fuel imageSize (s.set i slot) (Function.update t ((i : Int) + 1) f) where
  heap := hs.heap
  disk := hs.disk
  index {j desc} hj := by
    by_cases hij : j = i
    · subst hij
      rw [Files.set_self] at hj
      exact hslot desc hj
    · rw [Files.set_other hij] at hj
      exact hs.index hj
  slot fd := by
    by_cases hfd : fd = (i : Int) + 1
    · subst hfd
      have e : ((i : Int) + 1 - 1).toNat = i := by omega
      rw [Function.update_self, fileGetDescriptor_inside (by omega) (by omega), e, Files.set_self]
      exact hf
    · rw [Function.update_of_ne hfd]
      have h := hs.slot fd
      unfold fileGetDescriptor at h ⊢
      by_cases hin : fd ≤ 0 ∨ 512 ≤ fd
      · rw [if_pos hin] at h ⊢
        exact h
      · rw [if_neg hin] at h ⊢
        dsimp only at h ⊢
        rw [Files.set_other (by omega)]
        exact h

/-- The kernel changes, and no slot does. -/
theorem FilesOf.kernel (hs : FilesOf d fs fuel imageSize s t) {k : Kernel} (hk : LowHeap k) :
    FilesOf d fs fuel imageSize { s with kernel := k } t :=
  ⟨hk, hs.disk, hs.index, hs.slot⟩

/-- The driver changes its part of an open file. -/
theorem FilesOf.setPrivate (hs : FilesOf d fs fuel imageSize s t) {desc : FileDescriptor FileHandle}
    (hd : fileGetDescriptor s fd = some desc) {h' : FileHandle} {f' : OpenBytes}
    (hh : HandleOf d fs imageSize h' f') :
    FilesOf d fs fuel imageSize (s.setPrivate fd desc h') (Function.update t fd (some f')) := by
  obtain ⟨h1, h2, hslot⟩ := fileGetDescriptor_some hd
  have e : ((fd - 1).toNat : Int) + 1 = fd := by omega
  have hset := hs.set (i := (fd - 1).toNat) (by omega)
    (some { desc with priv := (desc.priv.1, h') }) (some f') (fun desc' e' => ?_) (.some hh)
  · rw [e] at hset
    exact hset
  · have hindex := hs.index hslot
    obtain rfl := Option.some.inj e'
    exact hindex

/-- **The first empty slot** is the least file descriptor that is not open. -/
theorem FilesOf.firstFree (hs : FilesOf d fs fuel imageSize s t) {i : Nat}
    (hfree : freeSlot s = some i) (hroom : ∃ j, j < 511 ∧ s.fileDescriptors j = none) :
    i < 511 ∧ FirstFree t ((i : Int) + 1) := by
  obtain ⟨-, hnone, hbefore⟩ := freeSlot_some hfree
  obtain ⟨j, hj, hjnone⟩ := hroom
  have hij : i ≤ j := Nat.not_lt.mp fun h => hbefore j h hjnone
  have hlt : i < 511 := by omega
  refine ⟨hlt, by omega, by omega, hs.none_iff.mp ?_, fun fd' h1 h2 hnone' => ?_⟩
  · have e : ((i : Int) + 1 - 1).toNat = i := by omega
    rw [fileGetDescriptor_inside (by omega) (by omega), e]
    exact hnone
  · have hget := hs.none_iff.mpr hnone'
    rw [fileGetDescriptor_inside h1 (by omega)] at hget
    exact hbefore _ (by omega) hget

theorem freeSlot_room (hroom : ∃ j, j < 511 ∧ s.fileDescriptors j = none) :
    ∃ i, freeSlot s = some i := by
  obtain ⟨j, hj, hjnone⟩ := hroom
  refine Option.isSome_iff_exists.mp (List.find?_isSome.mpr ⟨j, List.mem_range.mpr (by omega), ?_⟩)
  rw [hjnone]
  rfl

/-- **An `fopen` of a file of the volume**: the first empty slot gets its handle. -/
theorem FilesOf.opens_leads (hv : SoundVolume d fs imageSize) (hs : FilesOf d fs fuel imageSize s t)
    {filename modeStr : List UInt8} (hroom : FopenRoom s filename)
    (hmode : fileGetModeByString modeStr = .read) {item : DirectoryItem}
    (hitem : LeadsTo d fs filename item)
    {x : Except Int (Filesystem FileHandle × Nat × FileHandle) × Kernel}
    (hpriv : fopenPrivate s filename modeStr = some x) :
    ∃ fd s', fopen s filename modeStr = some (fd, s') ∧ FirstFree t fd ∧
      FilesOf d fs fuel imageSize s'
        (Function.update t fd (some ⟨storedBytes d fs item, 0, true⟩)) := by
  obtain ⟨i, hfree⟩ := freeSlot_room hroom.1
  obtain ⟨hlt, hfirst⟩ := hs.firstFree hfree hroom.1
  obtain ⟨r, k⟩ := x
  obtain ⟨ptr, rfl, hc, hk, hf⟩ := fopenPrivate_leads hv hs.heap hs.disk hroom hmode hitem hpriv
  have hgranted := fopen_granted hpriv hfree (descriptor_granted hk.placed hf)
  have hk₁ := parserKeeps_lowHeap.alloc 16 (by decide) (by decide) hk
  refine ⟨_, _, hgranted, hfirst, (hs.kernel hk₁).set hlt _ _ (fun desc e => ?_)
    (.some (handleOf_item hv hitem hc))⟩
  obtain rfl := Option.some.inj e
  exact ⟨rfl, rfl⟩

/-- **An `fopen` with room**, on the volume. -/
theorem FilesOf.opens (hv : SoundVolume d fs imageSize) (hs : FilesOf d fs fuel imageSize s t)
    {filename modeStr : List UInt8} (hroom : FopenRoom s filename)
    (hr : fopen s filename modeStr = some (fd, s')) :
    ∃ t', VolumeStep (volumeOf d fs) t (.opens filename modeStr fd) t' ∧
      FilesOf d fs fuel imageSize s' t' := by
  by_cases hopen : fileGetModeByString modeStr = .read ∧ ∃ item, LeadsTo d fs filename item
  · obtain ⟨hmode, item, hitem⟩ := hopen
    cases hpriv : fopenPrivate s filename modeStr with
    | none =>
      unfold fopen at hr
      rw [hpriv] at hr
      cases hr
    | some x =>
      obtain ⟨fd', s'', hfd', hfirst, hs''⟩ := hs.opens_leads hv hroom hmode hitem hpriv
      obtain ⟨rfl, rfl⟩ := Prod.mk.inj (Option.some.inj (hr.symm.trans hfd'))
      exact ⟨_, .opens hmode ⟨item, hitem, rfl⟩ hfirst, hs''⟩
  · -- nothing to open: no slot changes
    rcases fopen_cases hr with ⟨rfl, r, k, hpriv, rfl⟩ | ⟨_, _, _, _, hpriv, -⟩
    · refine ⟨t, .refused fun hmode bytes hbytes => ?_, hs.kernel ?_⟩
      · obtain ⟨item, hitem, -⟩ := hbytes
        exact hopen ⟨hmode, item, hitem⟩
      · exact fopenPrivate_lowHeap hs.heap hs.disk hpriv
    · exact absurd (fopenPrivate_found hv hs.heap hs.disk hroom hpriv) hopen

/-- **A read.** -/
theorem FilesOf.reads (hv : SoundVolume d fs imageSize) (hs : FilesOf d fs fuel imageSize s t)
    {size nmemb : Nat} {res : Int} {out : List UInt8}
    (hr : fread s size nmemb fd = some (res, out, s')) :
    ∃ t', VolumeStep (volumeOf d fs) t (.reads size nmemb fd res out) t' ∧
      FilesOf d fs fuel imageSize s' t' := by
  unfold fread at hr
  by_cases hbad : size = 0 ∨ nmemb = 0 ∨ fd < 1
  · rw [if_pos hbad] at hr
    obtain ⟨rfl, rfl, rfl⟩ := Option.some.inj hr
    refine ⟨t, .badRead ?_, hs⟩
    rcases hbad with h | h | h
    · exact Or.inl h
    · exact Or.inr (Or.inl h)
    · exact Or.inr (Or.inr (hs.none_iff.mp (if_pos (Or.inl (by omega)))))
  rw [if_neg hbad] at hr
  cases hd : fileGetDescriptor s fd with
  | none =>
    rw [hd] at hr
    obtain ⟨rfl, rfl, rfl⟩ := Option.some.inj hr
    exact ⟨t, .badRead (Or.inr (Or.inr (hs.none_iff.mp hd))), hs⟩
  | some desc =>
    rw [hd] at hr
    obtain ⟨f, hf, hh, -, hdriver⟩ := hs.handle hd
    dsimp only at hr
    rw [hdriver] at hr
    obtain ⟨x, hx, e₁⟩ := Option.map_eq_some_iff.mp hr
    obtain ⟨r, hread, rfl⟩ := Option.map_eq_some_iff.mp hx
    obtain ⟨rfl, e₂⟩ := Prod.mk.inj e₁
    obtain ⟨rfl, rfl⟩ := Prod.mk.inj e₂
    have hs0 : size ≠ 0 := fun h => hbad (Or.inl h)
    have hn0 : nmemb ≠ 0 := fun h => hbad (Or.inr (Or.inl h))
    cases hp : f.placed with
    | true =>
      obtain ⟨hstatus, hout, hhandle⟩ := hh.reads hv hp hs0 hread
      dsimp only
      rw [hstatus, hout]
      exact ⟨_, .reads hf hs0 hn0 hp, hs.setPrivate hd hhandle⟩
    | false =>
      obtain ⟨n, hn, hmoved, -⟩ := readItems_moved hh.cursor hread
      dsimp only
      refine ⟨_, .strays (n := n) hf hs0 hn0 hp ?_, hs.setPrivate hd ?_⟩
      · rw [hh.length, hh.pos]
        exact hn
      · rw [hmoved]
        exact hh.moved hn

/-- **A read comes back** where the turns of an item suffice, with what the volume answers. -/
theorem FilesOf.reads_open (hv : SoundVolume d fs imageSize) (hs : FilesOf d fs fuel imageSize s t)
    {f : OpenBytes} (hf : t fd = some f) (hp : f.placed = true) {size nmemb : Nat} (hs0 : size ≠ 0)
    (hn0 : nmemb ≠ 0) (hfuel : size ≤ fuel) :
    ∃ s', fread s size nmemb fd = some (i32 ((f.count size nmemb / size : Nat) : Int),
        (f.bytes.drop f.pos).take (f.count size nmemb), s') ∧
      FilesOf d fs fuel imageSize s'
        (Function.update t fd (some { f with pos := f.pos + f.count size nmemb })) := by
  obtain ⟨desc, hdesc, hh, hdriver⟩ := hs.descriptor hf
  obtain ⟨h1, -, -⟩ := fileGetDescriptor_some hdesc
  have hsome : (readItems d fs fuel size nmemb 0 desc.priv.2).isSome :=
    readItems_isSome nmemb hh.cursor (by omega) hfuel
  obtain ⟨r, hr⟩ := Option.isSome_iff_exists.mp hsome
  obtain ⟨hstatus, hout, hhandle⟩ := hh.reads hv hp hs0 hr
  refine ⟨s.setPrivate fd desc r.handle, ?_, hs.setPrivate hdesc hhandle⟩
  have hdrive : (fat32Fs d fs fuel).readFn desc.priv.2 size nmemb =
      some (r.status, r.out, r.handle) := by
    show (readItems d fs fuel size nmemb 0 desc.priv.2).map _ = _
    rw [hr]
    rfl
  unfold fread
  rw [if_neg (by omega), hdesc]
  dsimp only
  rw [hdriver, hdrive, Option.map_some, hstatus, hout]

/-- **A seek.** -/
theorem FilesOf.seeks (hs : FilesOf d fs fuel imageSize s t) {offset res : Int} {whence : Nat}
    (hr : fseek s fd offset whence = some (res, s')) :
    ∃ t', VolumeStep (volumeOf d fs) t (.seeks fd offset whence res) t' ∧
      FilesOf d fs fuel imageSize s' t' := by
  unfold fseek at hr
  cases hd : fileGetDescriptor s fd with
  | none =>
    rw [hd] at hr
    obtain ⟨rfl, rfl⟩ := Option.some.inj hr
    exact ⟨t, .badSeek (hs.none_iff.mp hd), hs⟩
  | some desc =>
    rw [hd] at hr
    obtain ⟨f, hf, hh, -, hdriver⟩ := hs.handle hd
    dsimp only at hr
    rw [hdriver] at hr
    obtain ⟨⟨res', h'⟩, hseek, e⟩ := Option.map_eq_some_iff.mp hr
    obtain ⟨rfl, rfl⟩ := Prod.mk.inj e
    obtain ⟨rfl, hh'⟩ := hh.seeks (u32_lt offset) hseek
    exact ⟨_, .seeks hf, hs.setPrivate hd hh'⟩

/-- **An open file is closed.** -/
theorem FilesOf.closes_open (hs : FilesOf d fs fuel imageSize s t) {f : OpenBytes}
    (hf : t fd = some f) :
    (fclose s fd).1 = 0 ∧
    FilesOf d fs fuel imageSize (fclose s fd).2 (Function.update t fd none) := by
  obtain ⟨desc, hd, -, -⟩ := hs.descriptor hf
  obtain ⟨h1, h2, -⟩ := fileGetDescriptor_some hd
  obtain ⟨-, -, -, hindex, hdriver⟩ := hs.handle hd
  have e : ((fd - 1).toNat : Int) + 1 = fd := by omega
  have hset := hs.set (i := (fd - 1).toNat) (by omega) none none (fun _ e' => nomatch e') .none
  rw [e] at hset
  rw [fclose_eq hd, hdriver]
  unfold fileFreeDescriptor
  rw [hindex]
  exact ⟨rfl, hset.kernel ((hs.heap.free _).free _)⟩

/-- **A close.** -/
theorem FilesOf.closes (hs : FilesOf d fs fuel imageSize s t) {res : Int}
    (hr : fclose s fd = (res, s')) :
    ∃ t', VolumeStep (volumeOf d fs) t (.closes fd res) t' ∧ FilesOf d fs fuel imageSize s' t' := by
  cases hf : t fd with
  | none =>
    have hd := hs.none_iff.mpr hf
    unfold fclose at hr
    rw [hd] at hr
    obtain ⟨rfl, rfl⟩ := Prod.mk.inj hr
    exact ⟨t, .badClose hf, hs⟩
  | some f =>
    obtain ⟨hres, hs'⟩ := hs.closes_open hf
    rw [hr] at hres hs'
    obtain rfl : res = 0 := hres
    exact ⟨_, .closes hf, hs'⟩

/-- **Each call is one on the volume.** -/
theorem fileCall_refines (hv : SoundVolume d fs imageSize) :
    Simulates FileCallStep (VolumeStep (volumeOf d fs)) (FilesOf d fs fuel imageSize) := by
  intro s t l s₁ hs h
  cases h with
  | opens hroom hr => exact hs.opens hv hroom hr
  | reads hr => exact hs.reads hv hr
  | seeks hr => exact hs.seeks hr
  | @stats fd res stat hr =>
    unfold fstat at hr
    cases hd : fileGetDescriptor s fd with
    | none =>
      rw [hd] at hr
      obtain ⟨rfl, rfl⟩ := Prod.mk.inj hr
      exact ⟨t, .badStat (hs.none_iff.mp hd), hs⟩
    | some desc =>
      rw [hd] at hr
      obtain ⟨f, hf, hh, -, hdriver⟩ := hs.handle hd
      dsimp only at hr
      rw [hdriver] at hr
      obtain ⟨rfl, rfl⟩ := Prod.mk.inj hr
      refine ⟨t, ?_, hs⟩
      have hstat := VolumeStep.stats (V := volumeOf d fs) hf
      rw [hh.length] at hstat
      exact hstat
  | closes hr => exact hs.closes hr

/-- The file layer behind `fs_init`. -/
theorem filesOf_init {k : Kernel} (hk : LowHeap k) :
    FilesOf d fs fuel imageSize (fsInit k (some (fat32Fs d fs fuel))) fun _ => none where
  heap := hk
  disk := rfl
  index h := nomatch h
  slot fd := by
    have e : fileGetDescriptor (fsInit k (some (fat32Fs d fs fuel))) fd = none := by
      unfold fileGetDescriptor
      split
      · rfl
      · rfl
    rw [e]
    exact .none

end Calls

/-! ## 5. Runs -/

section Runs

variable {d : Disk} {fs : Fat32Private} {fuel imageSize : Nat} {k : Kernel} {s : Files FileHandle}

/-- **The file layer is a volume of byte strings**: every run of its calls from `fs_init` on, in
    which each `fopen` finds room, is answered as the volume on the disk answers it, call by
    call. -/
theorem fileCalls_refine (hv : SoundVolume d fs imageSize) (hk : LowHeap k) {calls : List FileCall}
    (h : LabelledRun FileCallStep (fsInit k (some (fat32Fs d fs fuel))) calls s) :
    ∃ t, LabelledRun (VolumeStep (volumeOf d fs)) (fun _ => none) calls t ∧
      FilesOf d fs fuel imageSize s t :=
  (fileCall_refines hv).run h (filesOf_init hk)

/-- **What is read of a file is the file, in order**: behind an `fopen` that answered a file
    descriptor, whatever else is called, up to a seek or a close of it. -/
theorem fileCalls_inOrder (hv : SoundVolume d fs imageSize) (hk : LowHeap k)
    {before after : List FileCall} {filename modeStr : List UInt8} {fd : Int} (hfd : 0 < fd)
    (h : LabelledRun FileCallStep (fsInit k (some (fat32Fs d fs fuel)))
      (before ++ .opens filename modeStr fd :: after) s) (hkeep : ∀ c ∈ after, c.Keeps fd) :
    ∃ item, LeadsTo d fs filename item ∧ after.flatMap (FileCall.delivered fd) =
      (storedBytes d fs item).take (after.map (FileCall.asked fd)).sum := by
  obtain ⟨t, hrun, -⟩ := fileCalls_refine hv hk h
  obtain ⟨t₁, -, hrun₁⟩ := hrun.of_append
  cases hrun₁ with
  | cons hopen hafter =>
    cases hopen with
    | opens hmode hbytes hfree =>
      obtain ⟨item, hitem, rfl⟩ := hbytes
      refine ⟨item, hitem, ?_⟩
      exact (volumeRun_inOrder hafter (Function.update_self ..) rfl hkeep).1
    | refused _ => exact absurd hfd (Int.lt_irrefl 0)

/-- A search that finds an item comes to an end. -/
theorem Entry.ends {items : Nat → List DirectoryItem} {part : List UInt8} {c : Nat}
    {item : DirectoryItem} (h : Entry d fs items part c item) :
    DirectoryEnds d fs items part c := by
  obtain ⟨n, c', hc', -, hfirst⟩ := h
  refine ⟨n, fun c'' hc'' => ?_⟩
  obtain rfl := Option.some.inj (hc'.symm.trans hc'')
  exact hfirst.not_clear

/-- ... and so does the walk along a path that leads somewhere. -/
theorem Resolves.pathEnds {items : Nat → List DirectoryItem} {part : List UInt8}
    {next : List (List UInt8)} {c : Nat} {item : DirectoryItem}
    (h : Resolves d fs items c part next item) :
    PathEnds d fs items c part next := by
  induction h with
  | last hitem => exact hitem.ends
  | enter hdir hattr _ ih =>
    refine ⟨hdir.ends, fun item hitem _ => ?_⟩
    obtain rfl := FirstEntry.unique hdir hitem
    exact ih

/-- **The driver comes back** with a path that leads to an item, with enough turns. -/
theorem LeadsTo.returns (hv : SoundVolume d fs imageSize) {filename : List UInt8}
    {item : DirectoryItem} (hitem : LeadsTo d fs filename item) : ∃ turns, ∀ fuel, turns ≤ fuel →
      ∀ {s : Files FileHandle}, LowHeap s.kernel → s.disk = some (fat32Fs d fs fuel) →
      FopenRoom s filename → ∀ {modeStr : List UInt8}, fileGetModeByString modeStr = .read →
      ∃ x, fopenPrivate s filename modeStr = some x := by
  obtain ⟨kr, hr⟩ := hv.resolved
  have hlt := fat32Resolve_size_lt hr
  obtain ⟨part, next, hcomp, hres⟩ := hitem.path
  obtain ⟨turns, hturns⟩ := pathLoop_returns next hres.pathEnds
  refine ⟨turns, fun fuel hfuel s hk hdisk hroom modeStr hmode => ?_⟩
  obtain ⟨k₁, part', next', -, -, hcomp', -, heq⟩ := hitem.driver hk hdisk hroom hmode
  obtain ⟨rfl, rfl⟩ := List.cons.inj (hcomp.symm.trans hcomp')
  obtain ⟨item', hwalk⟩ := hturns k₁.mem (bufItems_eq hv.whole (by omega)) fuel hfuel
  obtain ⟨y, hopen⟩ : ∃ y, fat32Open k₁ d fs fuel part next .read = some y := by
    unfold fat32Open getPathDirectoryItem
    rw [if_neg (by decide), hwalk]
    dsimp only
    split
    · exact ⟨_, rfl⟩
    · split <;> exact ⟨_, rfl⟩
  rw [heq, hopen]
  exact ⟨_, rfl⟩

/-- **Every file of the volume can be opened and read**: with enough turns for its path, and
    whatever files are open, `fopen` answers a file descriptor, `fstat` its size, and one `fread`
    its first `n` bytes, or all of them; `fclose` leaves the open files as they were. -/
theorem volume_file_read (hv : SoundVolume d fs imageSize) {filename : List UInt8}
    {item : DirectoryItem} (hitem : LeadsTo d fs filename item) :
    ∃ turns, ∀ fuel, turns ≤ fuel → ∀ s t,
      FilesOf d fs fuel imageSize s t → FopenRoom s filename → ∀ modeStr,
      fileGetModeByString modeStr = .read → ∀ n, 1 ≤ n →
      ∃ fd s₁ s₂ s₃, fopen s filename modeStr = some (fd, s₁) ∧ FirstFree t fd ∧
        fstat s₁ fd = (0, some ⟨FILE_STAT_READ_ONLY, item.filesize⟩) ∧
        fread s₁ 1 n fd = some (i32 ((min n item.filesize : Nat) : Int),
          (storedBytes d fs item).take n, s₂) ∧
        fclose s₂ fd = (0, s₃) ∧ FilesOf d fs fuel imageSize s₃ t := by
  obtain ⟨turns, hturns⟩ := hitem.returns hv
  refine ⟨turns + 1, fun fuel hfuel s t hs hroom modeStr hmode n hn => ?_⟩
  obtain ⟨x, hpriv⟩ := hturns fuel (by omega) hs.heap hs.disk hroom hmode
  obtain ⟨fd, s₁, hopen, hfirst, hs₁⟩ := hs.opens_leads hv hroom hmode hitem hpriv
  have hlen : (storedBytes d fs item).length = item.filesize := slice_length ..
  have hopened : Function.update t fd (some ⟨storedBytes d fs item, 0, true⟩) fd =
      some ⟨storedBytes d fs item, 0, true⟩ := Function.update_self ..
  obtain ⟨desc, hdesc, hh, hdriver⟩ := hs₁.descriptor hopened
  have hstat : fstat s₁ fd = (0, some ⟨FILE_STAT_READ_ONLY, item.filesize⟩) := by
    unfold fstat
    rw [hdesc]
    dsimp only
    rw [hdriver, ← hlen, hh.length]
    rfl
  obtain ⟨s₂, hread, hs₂⟩ := hs₁.reads_open hv hopened rfl Nat.one_ne_zero (show n ≠ 0 by omega)
    (show 1 ≤ fuel by omega)
  have hcount : (OpenBytes.mk (storedBytes d fs item) 0 true).count 1 n = min n item.filesize := by
    unfold OpenBytes.count
    dsimp only
    rw [Nat.one_mul, Nat.sub_zero, hlen]
  rw [hcount, Nat.div_one] at hread
  dsimp only at hread
  rw [List.drop_zero] at hread
  have htake : (storedBytes d fs item).take (min n item.filesize) =
      (storedBytes d fs item).take n := by
    rw [← hlen, ← List.take_eq_take_min]
  rw [htake] at hread
  obtain ⟨hclose, hs₃⟩ := hs₂.closes_open (Function.update_self ..)
  rw [Function.update_idem, Function.update_idem,
    Function.update_eq_self_iff.mpr hfirst.free.symm] at hs₃
  exact ⟨fd, s₁, s₂, _, hopen, hfirst, hstat, hread, Prod.ext hclose rfl, hs₃⟩

end Runs

/-! ## 6. A small volume -/

/-- An item of the root directory is the file `A`. -/
theorem oneFileVolume_entry {part : List UInt8} {item : DirectoryItem}
    (h : Entry oneFileVolume smallPrivate (clusterItems oneFileVolume smallPrivate) part 2 item) :
    item = oneFileItem := by
  obtain ⟨last, rest, hitems, hlast⟩ := oneFileVolume_items
  exact h.eq_first hitems hlast (by unfold DirectoryItem.IsLast; decide)

theorem oneFileVolume_stored : StoredFile oneFileVolume smallPrivate 3 700 4096 where
  cluster k hk := by
    have hk : k * 512 < 700 := hk
    obtain rfl | rfl : k = 0 ∨ k = 1 := by omega
    · exact ⟨3, rfl, by decide +kernel⟩
    · exact ⟨5, by decide +kernel⟩
  link k c hk hc := by
    have hk : (k + 1) * 512 < 700 := hk
    obtain rfl : k = 0 := by omega
    cases hc
    decide +kernel

theorem oneFileVolume_sound : SoundVolume oneFileVolume smallPrivate 4096 where
  resolved := ⟨bootKernel, oneFileVolume_resolve⟩
  image_lt := by decide
  whole := by decide
  stored filename item h := by
    obtain ⟨part, next, -, hres⟩ := h.path
    have e : item = oneFileItem := by
      cases hres with
      | last hitem => exact oneFileVolume_entry hitem
      | enter hdir hattr _ =>
        rw [oneFileVolume_entry hdir] at hattr
        exact absurd hattr (by decide)
    rw [e]
    exact oneFileVolume_stored

theorem oneFileVolume_leads : LeadsTo oneFileVolume smallPrivate pathA oneFileItem where
  len_le := by decide
  starts := by decide
  drive := by decide
  path := by
    obtain ⟨last, rest, hitems, -⟩ := oneFileVolume_items
    refine ⟨[0x61], [], by decide, .last (.first hitems ?_ ?_)⟩
    · unfold HasName
      decide
    · unfold DirectoryItem.IsLast
      decide

theorem smallKernel_lowHeap : LowHeap smallKernel :=
  ⟨smallKernel_files.placed, smallKernel_files.low⟩

/-- `fs_init` on the small volume. -/
def smallFiles (fuel : Nat) : Files FileHandle :=
  fsInit smallKernel (some (fat32Fs oneFileVolume smallPrivate fuel))

theorem smallFiles_room (fuel : Nat) : FopenRoom (smallFiles fuel) pathA := by
  have hfree : freeBlocks smallKernel.heap = 25597 := smallKernel_files.free
  refine ⟨⟨0, by decide, rfl⟩, ?_⟩
  show 2 * (pathComponents pathA).length + 4 ≤ freeBlocks smallKernel.heap
  rw [hfree]
  decide

/-- The file `A` opened, and 300 bytes and then 500 bytes of it read, of which 400 are there. -/
theorem smallFiles_run : ∃ s out₁ out₂, LabelledRun FileCallStep (smallFiles 1)
    ([] ++ [.opens pathA modeR 1, .reads 1 300 1 300 out₁, .reads 1 500 1 400 out₂]) s := by
  have hs : FilesOf oneFileVolume smallPrivate 1 4096 (smallFiles 1) fun _ => none :=
    filesOf_init smallKernel_lowHeap
  obtain ⟨ptr, k, hpriv, -⟩ :=
    openA_private (show SmallFiles (smallFiles 1) (25592 + 5) from smallKernel_files)
  obtain ⟨fd, s₁, hopen, hfirst, hs₁⟩ := hs.opens_leads oneFileVolume_sound (smallFiles_room 1)
    (by decide) oneFileVolume_leads hpriv
  obtain rfl : fd = 1 := by
    have h1 := hfirst.pos
    by_contra hne
    exact hfirst.least 1 (Int.le_refl 1) (by omega) rfl
  have hlen : (storedBytes oneFileVolume smallPrivate oneFileItem).length = 700 := slice_length ..
  obtain ⟨s₂, hread₁, hs₂⟩ := hs₁.reads_open oneFileVolume_sound (Function.update_self ..) rfl
    Nat.one_ne_zero (show 300 ≠ 0 by decide) (Nat.le_refl 1)
  obtain ⟨s₃, hread₂, -⟩ := hs₂.reads_open oneFileVolume_sound (Function.update_self ..) rfl
    Nat.one_ne_zero (show 500 ≠ 0 by decide) (Nat.le_refl 1)
  unfold OpenBytes.count at hread₁ hread₂
  dsimp only at hread₁ hread₂
  rw [hlen] at hread₁ hread₂
  have e₁ : i32 ((min (1 * 300) (700 - 0) / 1 : Nat) : Int) = 300 := by decide
  have e₂ : i32 ((min (1 * 500) (700 - (0 + min (1 * 300) (700 - 0))) / 1 : Nat) : Int) = 400 := by
    decide
  rw [e₁] at hread₁
  rw [e₂] at hread₂
  have hrest := LabelledRun.cons (FileCallStep.reads hread₁)
    (.cons (FileCallStep.reads hread₂) (.nil s₃))
  exact ⟨s₃, _, _, .cons (.opens (smallFiles_room 1) hopen) hrest⟩

theorem fileCalls_refine_small : ∃ s t out₁ out₂,
    LabelledRun (VolumeStep (volumeOf oneFileVolume smallPrivate)) (fun _ => none)
      [.opens pathA modeR 1, .reads 1 300 1 300 out₁, .reads 1 500 1 400 out₂] t ∧
    FilesOf oneFileVolume smallPrivate 1 4096 s t := by
  obtain ⟨s, out₁, out₂, hrun⟩ := smallFiles_run
  obtain ⟨t, hvolume, hs⟩ := fileCalls_refine oneFileVolume_sound smallKernel_lowHeap hrun
  exact ⟨s, t, out₁, out₂, hvolume, hs⟩

theorem fileCalls_inOrder_small : ∃ s out₁ out₂ item,
    LabelledRun FileCallStep (smallFiles 1)
      ([] ++ [.opens pathA modeR 1, .reads 1 300 1 300 out₁, .reads 1 500 1 400 out₂]) s ∧
    LeadsTo oneFileVolume smallPrivate pathA item ∧
    out₁ ++ (out₂ ++ []) = (storedBytes oneFileVolume smallPrivate item).take
        (300 + (500 + 0)) := by
  obtain ⟨s, out₁, out₂, hrun⟩ := smallFiles_run
  obtain ⟨item, hitem, hread⟩ := fileCalls_inOrder oneFileVolume_sound smallKernel_lowHeap
    (show (0 : Int) < 1 by decide) hrun (fun c hc => by
      rcases List.mem_cons.mp hc with rfl | hc
      · trivial
      · rw [List.mem_singleton.mp hc]
        trivial)
  exact ⟨s, out₁, out₂, item, hrun, hitem, hread⟩

/-- The file `A` is opened, read whole and closed. -/
theorem volume_file_read_small : ∃ fuel fd s₁ s₂ s₃,
    fopen (smallFiles fuel) pathA modeR = some (fd, s₁) ∧
    fstat s₁ fd = (0, some ⟨FILE_STAT_READ_ONLY, 700⟩) ∧
    fread s₁ 1 1000 fd = some (700, (storedBytes oneFileVolume smallPrivate oneFileItem).take 1000,
      s₂) ∧
    fclose s₂ fd = (0, s₃) := by
  obtain ⟨turns, hturns⟩ := volume_file_read oneFileVolume_sound oneFileVolume_leads
  obtain ⟨fd, s₁, s₂, s₃, hopen, -, hstat, hread, hclose, -⟩ := hturns turns (Nat.le_refl _)
    (smallFiles turns) _ (filesOf_init smallKernel_lowHeap)
      (smallFiles_room turns) modeR (by decide)
    1000 (by decide)
  have e : i32 ((min 1000 oneFileItem.filesize : Nat) : Int) = 700 := by decide
  rw [e] at hread
  exact ⟨turns, fd, s₁, s₂, s₃, hopen, hstat, hread, hclose⟩

end PeachKernel
