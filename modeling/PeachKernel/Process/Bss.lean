/-
  File:      PeachKernel/Process/Bss.lean
  Subject:   The bytes of a segment behind `p_filesz`, as a loaded program finds them.

  The file is mapped where it was read, and nothing is cleared. What a program finds behind
  `p_filesz` is what lies there in the file; and behind the file's end, what lies behind its block.

  * `ValidSegments` -- what is asked of the headers: loadable segments as a linker makes them, and
    no other header that maps their pages elsewhere;
  * `load_translate` -- every byte of a loadable segment is the file's byte;
  * `BssOk` -- the bytes behind `p_filesz` are 0, in memory of the process;
  * `mapElf_bss_iff` -- exactly when the file has zeros there, or ends, in memory that was clear.
-/
import PeachKernel.Heap.Since
import PeachKernel.Loader.Bounds
import PeachKernel.Process.MapSegments

namespace PeachKernel

open CInt Mem

/-! ## 1. Translation through several headers -/

/-- Where both headers map a page, they name the same page of memory. -/
def MapAlike (file : ElfFile) (phdr other : Phdr) : Prop :=
  ∀ q, q < 1048576 → phdrMaps file phdr q → phdrMaps file other q →
    phdrPhys file other + phdrOffset other q * 4096 = phdrPhys file phdr + phdrOffset phdr q * 4096

/-- **Loadable segments as a linker makes them**; headers of other types may lie over them. -/
structure ValidSegments (file : ElfFile) (phdrs : List Phdr) : Prop where
  plain : ∀ phdr ∈ loadHeaders phdrs, PlainSegment file phdr
  alike : ∀ phdr ∈ loadHeaders phdrs, ∀ other ∈ phdrs, MapAlike file phdr other

theorem lastMapper_some {file : ElfFile} {q : Nat} {phdr : Phdr} : ∀ {phdrs : List Phdr},
    phdr ∈ phdrs → phdrMaps file phdr q → ∃ last, lastMapper file q phdrs = some last
  | [], hmem, _ => absurd hmem List.not_mem_nil
  | first :: phdrs, hmem, hmaps => by
    rw [lastMapper]
    cases hl : lastMapper file q phdrs with
    | some last => exact ⟨last, Option.some_or⟩
    | none =>
      rcases List.mem_cons.mp hmem with rfl | hmem
      · exact ⟨phdr, by rw [if_pos hmaps, Option.none_or]⟩
      · obtain ⟨last, hlast⟩ := lastMapper_some hmem hmaps
        rw [hl] at hlast
        cases hlast

section Translate

variable {m : Mem} {chunk dir : Nat} {file : ElfFile}

/-- **A byte of a loadable segment is the file's byte**, at its place in memory. -/
theorem load_translate (hd : DirOk m dir) (hc : ChunkOk m chunk dir)
    (ho : HeadersOutside m dir file) (ha : file.elfMemory % 4096 = 0)
    (hok : 0 ≤ (processMapElf m chunk file).1) (hv : ValidSegments file (fileHeaders m file))
    {phdr : Phdr} (hmem : phdr ∈ loadHeaders (fileHeaders m file)) {k : Nat}
    (hk : k < phdr.pMemsz) :
    pagingGetPhysicalAddress (processMapElf m chunk file).2 dir (phdr.pVaddr + k) =
      file.elfMemory + phdr.pOffset.toNat + k := by
  have hheaders : mapElfHeaders m chunk file = fileHeaders m file :=
    mapElfHeadersLoop_file hd hc ho 65536 0 0 ⟨fun _ _ => rfl, fun _ _ => rfl⟩ (Nat.zero_add _) hok
  have hplain := hv.plain phdr hmem
  have hvirt := hplain.virt
  have hphys := hplain.phys
  have hoffset := hplain.offset
  obtain ⟨hin, hbyte⟩ := hplain.byte ha hk
  have hq : (phdr.pVaddr + k) / 4096 < 1048576 := by omega
  have hmaps := (phdrMaps_plain hplain ha hq).mpr hin
  obtain ⟨last, hlast⟩ := lastMapper_some (List.mem_of_mem_filter hmem) hmaps
  obtain ⟨hmem', hmaps'⟩ := lastMapper_mem hlast
  -- the last mapper of the page maps it as this header does
  have halike := hv.alike phdr hmem last hmem' _ hq hmaps hmaps'
  have hentry := (@processMapElf_mapsTo m chunk dir file hd hc).entry _ hq
  rw [hheaders, headersEntry, hlast, Option.map_some, Option.getD_some] at hentry
  rw [pagingGetPhysicalAddress_eq, hentry, phdrEntry_page hmaps', halike, hbyte,
    u32_natCast_of_lt (by omega)]

end Translate

/-! ## 2. Bytes behind `p_filesz` -/

/-- The address lies in the blocks of an allocation of the process. -/
def InBlocksOf (own : List Allocation) (a : Nat) : Prop :=
  ∃ x ∈ own, x.ptr ≤ a ∧ a < x.ptr + blocksFor x.size * 4096

/-- **Uninitialised data starts zeroed and private**: every byte behind `p_filesz` reads as 0
    through the directory, from memory allocated to the process. -/
def BssOk (m : Mem) (dir : Nat) (own : List Allocation) (phdr : Phdr) : Prop :=
  ∀ k, phdr.pFilesz ≤ k → k < phdr.pMemsz →
    m (pagingGetPhysicalAddress m dir (phdr.pVaddr + k)) = 0 ∧
      InBlocksOf own (pagingGetPhysicalAddress m dir (phdr.pVaddr + k))

/-- The same of the file: its byte is 0 there, or behind its end memory was. -/
def BssClear (m : Mem) (file : ElfFile) (content : List UInt8) (own : List Allocation)
    (phdr : Phdr) : Prop :=
  ∀ k, phdr.pFilesz ≤ k → k < phdr.pMemsz →
    content.getD (phdr.pOffset.toNat + k) (m (file.elfMemory + phdr.pOffset.toNat + k)) = 0 ∧
      InBlocksOf own (file.elfMemory + phdr.pOffset.toNat + k)

section Load

variable {k : Kernel} {content : List UInt8} {file : ElfFile}

/-- A file that was loaded is where it was read. -/
theorem elfLoad_elfMemory (h : (elfLoad k (wholeFile content)).2.1 = some file) :
    file.elfMemory = elfBuffer k content := by
  obtain ⟨hopen, hstat⟩ := wholeFile_ok content
  have hread : ¬ (wholeFile content).fread < 0 := by
    refine wholeFile_fread fun hempty => ?_
    rw [(wholeFile_empty k hempty).2] at h
    cases h
  have hmem : ∀ m,
      (elfProcessLoaded m ⟨(kzalloc k 132).1, elfBuffer k content, 0, 0, 0, 0⟩).2.elfMemory =
        elfBuffer k content := by
    intro m
    unfold elfProcessLoaded
    dsimp only
    split
    · rfl
    · rw [elfProcessPheaders_eq]
      exact loadRanges_memory ..
  have hfile := hmem
    (copyIn (kzalloc (kzalloc k 132).2 content.length).2.mem (elfBuffer k content) content)
  rw [elfLoad_read k hopen hstat hread] at h
  dsimp only at h
  split at h
  · cases h
  · exact (congrArg ElfFile.elfMemory (Option.some.inj h)).symm.trans hfile

/-- The file's bytes stand there. -/
theorem elfLoad_byte (h : (elfLoad k (wholeFile content)).2.1 = some file)
    (hlen : content.length < 4294967296) {i : Nat} (hi : i < content.length) (c : UInt8) :
    (elfLoad k (wholeFile content)).2.2.mem (file.elfMemory + i) = content.getD i c := by
  rw [elfLoad_elfMemory h, wholeFile_image k content (by omega)]
  unfold fileImage
  rw [List.getD_eq_getElem _ _ hi, List.getD_eq_getElem _ _ hi]

/-- **Uninitialised data starts zeroed and private exactly where the file has zeros behind
    `p_filesz`, or ends before them, in front of clear memory of the process.** Between the load and
    the mapping memory may change, but for the file. -/
theorem mapElf_bss_iff (hp : k.heap.Placed) (hlen : content.length < 4294967296)
    (hload : (elfLoad k (wholeFile content)).2.1 = some file) {m : Mem}
    (hkept : ∀ i, i < content.length →
      m (file.elfMemory + i) = (elfLoad k (wholeFile content)).2.2.mem (file.elfMemory + i))
    {chunk dir : Nat} (hd : DirOk m dir) (hc : ChunkOk m chunk dir) (ho : HeadersOutside m dir file)
    (hok : 0 ≤ (processMapElf m chunk file).1) (hv : ValidSegments file (fileHeaders m file))
    {own : List Allocation} (hown : ∀ a, InBlocksOf own a → OutsideTables m dir a) :
    (∀ phdr ∈ loadHeaders (fileHeaders m file), BssOk (processMapElf m chunk file).2 dir own phdr) ↔
      ∀ phdr ∈ loadHeaders (fileHeaders m file), BssClear m file content own phdr := by
  have ha : file.elfMemory % 4096 = 0 := by
    rw [elfLoad_elfMemory hload]
    refine kzalloc_aligned ?_ hlen
    rw [kzalloc_heap]
    exact hp.malloc 132
  have hframe := (@processMapElf_mapsTo m chunk dir file hd hc).frame
  refine forall₂_congr fun phdr hmem => forall_congr' fun j => forall₂_congr fun hlow hj => ?_
  rw [load_translate hd hc ho ha hok hv hmem hj]
  refine and_congr_left fun hin => ?_
  rw [hframe _ (hown _ hin)]
  by_cases hj' : phdr.pOffset.toNat + j < content.length
  · have hbyte := elfLoad_byte hload hlen hj' (m (file.elfMemory + phdr.pOffset.toNat + j))
    rw [← hkept _ hj', ← Nat.add_assoc] at hbyte
    rw [← hbyte]
  · rw [List.getD_eq_default _ _ (Nat.le_of_not_lt hj')]

end Load

/-! ## 3. A file with zeros behind `p_filesz`, and one with other bytes -/

/-- `plainFile` with `p_memsz = 100`, and 16 bytes more behind the segment. -/
def bssBytes (c : UInt8) : List UInt8 := plainFile.set 72 100 ++ List.replicate 16 c

theorem bssBytes_length (c : UInt8) : (bssBytes c).length = 100 := rfl

/-- What `elf_load` allocates for it. -/
def bssOwn : List Allocation := [⟨0x01000000, 132⟩, ⟨0x01001000, 100⟩]

theorem bssOwn_lt {a : Nat} (h : InBlocksOf bssOwn a) : a < 0x08000000 := by
  obtain ⟨x, hx, -, hlt⟩ := h
  have hx' : x = ⟨0x01000000, 132⟩ ∨ x = ⟨0x01001000, 100⟩ := by simpa [bssOwn] using hx
  rcases hx' with rfl | rfl
  · have hone : blocksFor 132 = 1 := by decide
    rw [hone] at hlt
    dsimp only at hlt
    omega
  · have hone : blocksFor 100 = 1 := by decide
    rw [hone] at hlt
    dsimp only at hlt
    omega

/-- A memory that is `identityMem` outside the heap, with a file of one header there. -/
structure BssMem (m : Mem) : Prop where
  other : ∀ a, a < 4294967296 → a < 0x01000000 ∨ 0x08000000 ≤ a → m a = identityMem a
  headers : fileHeaders m plainElf = [⟨1, 0, 0x400000, 84, 100, 6⟩]
  phnum : ePhnum m (elfHeader plainElf) = 1
  phdrs : elfPheader m (elfHeader plainElf) = 0x01001034

section BssMem

variable {m : Mem}

theorem BssMem.headersOutside (h : BssMem m) : HeadersOutside m 0x00100000 plainElf := by
  refine ⟨fun a _ h2 => identityMem_outside h.other ?_,
    fun i hi a _ h2 => identityMem_outside h.other ?_⟩
  · have h2' : a < 0x01001000 + 46 := h2
    omega
  · rw [h.phnum] at hi
    obtain rfl : i = 0 := by omega
    rw [h.phdrs, show u32 ((0x01001034 + 32 * 0 : Nat) : Int) = 0x01001034 from rfl] at h2
    omega

theorem BssMem.plain (h : BssMem m) :
    ∀ phdr ∈ fileHeaders m plainElf, PlainSegment plainElf phdr := by
  intro phdr hmem
  rw [h.headers] at hmem
  rw [List.mem_singleton.mp hmem]
  exact ⟨by decide, by decide, by decide, by decide⟩

theorem BssMem.valid (h : BssMem m) : ValidSegments plainElf (fileHeaders m plainElf) where
  plain phdr hmem := h.plain phdr (List.mem_of_mem_filter hmem)
  alike phdr hmem other hmem' q _ _ _ := by
    have hmem := List.mem_of_mem_filter hmem
    rw [h.headers] at hmem hmem'
    rw [List.mem_singleton.mp hmem, List.mem_singleton.mp hmem']

theorem BssMem.loadHeaders (h : BssMem m) :
    PeachKernel.loadHeaders (fileHeaders m plainElf) = [⟨1, 0, 0x400000, 84, 100, 6⟩] := by
  rw [h.headers]
  rfl

theorem BssMem.ok (h : BssMem m) : 0 ≤ (processMapElf m 0x00200000 plainElf).1 := by
  have hi := identityMem_mapsItself h.other
  rw [processMapElf_ok hi.dirOk hi.chunkOk h.headersOutside h.plain]

end BssMem

theorem bssBytes_mem (c : UInt8)
    (hheaders : fileHeaders (elfLoad bssKernel (wholeFile (bssBytes c))).2.2.mem plainElf =
      [⟨1, 0, 0x400000, 84, 100, 6⟩])
    (hphnum : ePhnum (elfLoad bssKernel (wholeFile (bssBytes c))).2.2.mem (elfHeader plainElf) = 1)
    (hphdrs : elfPheader (elfLoad bssKernel (wholeFile (bssBytes c))).2.2.mem (elfHeader plainElf) =
      0x01001034) : BssMem (elfLoad bssKernel (wholeFile (bssBytes c))).2.2.mem := by
  refine ⟨fun a ha h => bssKernel_load_mem (wholeFile_ok _).1 (wholeFile_ok _).2 ?_ ?_ ?_ ha h,
    hheaders, hphnum, hphdrs⟩
  · show 1 ≤ (bssBytes c).length
    rw [bssBytes_length]
    decide
  · show (bssBytes c).length ≤ 4096
    rw [bssBytes_length]
    decide
  · show (bssBytes c).length ≤ 4096
    rw [bssBytes_length]
    decide

theorem bssZeros_mem : BssMem (elfLoad bssKernel (wholeFile (bssBytes 0))).2.2.mem :=
  bssBytes_mem 0 (by decide +kernel) (by decide +kernel) (by decide +kernel)

theorem bssDirty_mem : BssMem (elfLoad bssKernel (wholeFile (bssBytes 0xAA))).2.2.mem :=
  bssBytes_mem 0xAA (by decide +kernel) (by decide +kernel) (by decide +kernel)

/-- The file with zeros. -/
theorem mapElf_bss_iff_zeros :
    (∀ phdr ∈ loadHeaders
        (fileHeaders (elfLoad bssKernel (wholeFile (bssBytes 0))).2.2.mem plainElf),
      BssOk (processMapElf (elfLoad bssKernel (wholeFile (bssBytes 0))).2.2.mem 0x00200000
        plainElf).2 0x00100000 bssOwn phdr) ↔
    ∀ phdr ∈ loadHeaders
        (fileHeaders (elfLoad bssKernel (wholeFile (bssBytes 0))).2.2.mem plainElf),
      BssClear (elfLoad bssKernel (wholeFile (bssBytes 0))).2.2.mem plainElf
        (bssBytes 0) bssOwn phdr := by
  have hm := bssZeros_mem
  have hi := identityMem_mapsItself hm.other
  exact mapElf_bss_iff (kernelHeap_placed _) (by decide) (by decide +kernel)
    (fun _ _ => rfl) hi.dirOk hi.chunkOk hm.headersOutside hm.ok hm.valid fun a ha =>
      identityMem_outside hm.other (bssOwn_lt ha)

/-- **The file with other bytes is accepted and mapped, and the program finds them in its
    uninitialised data.** -/
theorem mapElf_bss_dirty :
    ¬ ∀ (k : Kernel) (content : List UInt8) (file : ElfFile) (chunk dir : Nat)
      (own : List Allocation), k.heap.Placed → content.length < 4294967296 →
    (elfLoad k (wholeFile content)).2.1 = some file →
    DirOk (elfLoad k (wholeFile content)).2.2.mem dir →
    ChunkOk (elfLoad k (wholeFile content)).2.2.mem chunk dir →
    HeadersOutside (elfLoad k (wholeFile content)).2.2.mem dir file →
    0 ≤ (processMapElf (elfLoad k (wholeFile content)).2.2.mem chunk file).1 →
    ValidSegments file (fileHeaders (elfLoad k (wholeFile content)).2.2.mem file) →
    (∀ a, InBlocksOf own a → OutsideTables (elfLoad k (wholeFile content)).2.2.mem dir a) →
    ∀ phdr ∈ loadHeaders (fileHeaders (elfLoad k (wholeFile content)).2.2.mem file),
      BssOk (processMapElf (elfLoad k (wholeFile content)).2.2.mem chunk file).2 dir own phdr := by
  intro h
  have hm := bssDirty_mem
  have hi := identityMem_mapsItself hm.other
  have hok := h bssKernel (bssBytes 0xAA) plainElf 0x00200000 0x00100000 bssOwn
    (kernelHeap_placed _) (by decide)
      (by decide +kernel) hi.dirOk hi.chunkOk hm.headersOutside hm.ok hm.valid
    (fun a ha => identityMem_outside hm.other (bssOwn_lt ha)) ⟨1, 0, 0x400000, 84, 100, 6⟩
    (by rw [hm.loadHeaders]; exact List.mem_cons_self) 84 (by decide) (by decide)
  have hbyte : (processMapElf (elfLoad bssKernel (wholeFile (bssBytes 0xAA))).2.2.mem 0x00200000
      plainElf).2 (pagingGetPhysicalAddress (processMapElf
        (elfLoad bssKernel (wholeFile (bssBytes 0xAA))).2.2.mem 0x00200000 plainElf).2 0x00100000
        (0x400000 + 84)) = 0xAA := by
    decide +kernel
  dsimp only at hok
  rw [hbyte] at hok
  exact absurd hok.1 (by decide)

end PeachKernel
