/-
  File:      PeachKernel/Process/MapSegments.lean
  Subject:   `process_map_elf` on a file as the linker scripts make it.

  The first page is rounded down, on the virtual and on the physical side, the end is rounded up on
  the physical side, and the number of pages comes from there. Where offset and address of a segment
  lie equally far into their pages, these are the pages of the segment, page by page at the file's
  bytes.

  * `PlainSegment` -- what is asked of a header; `InPages` -- the pages of its rounded range;
  * `phdrMaps_plain` -- it maps these pages; `PlainSegment.byte` -- and its bytes are the file's;
  * `processMapElf_ok` -- no header is refused; `mapElf_segments` -- the directory behind the call.
-/
import PeachKernel.Process.MapPages

namespace PeachKernel

open CInt Mem

/-! ## 1. One segment -/

/-- **A segment as a linker makes it**, in a file that lies inside the address space. -/
structure PlainSegment (file : ElfFile) (phdr : Phdr) : Prop where
  offset : 0 ≤ phdr.pOffset
  congruent : phdr.pOffset % 4096 = (phdr.pVaddr : Int) % 4096
  virt : phdr.pVaddr + phdr.pMemsz ≤ 4294967296
  phys : (file.elfMemory : Int) + phdr.pOffset + phdr.pMemsz + 4095 < 4294967296

/-- A page of the header's virtual range, rounded out to pages. -/
def InPages (phdr : Phdr) (q : Nat) : Prop :=
  phdr.pVaddr / 4096 ≤ q ∧ q < ceilDiv (phdr.pVaddr + phdr.pMemsz) 4096

/-- The flags that a header asks for. -/
def segmentFlags (phdr : Phdr) : Nat :=
  pagingIsPresent ||| pagingAccessFromAll |||
    if phdr.pFlags &&& pfW ≠ 0 then pagingIsWriteable else 0

theorem phdrFlags_eq (phdr : Phdr) : phdrFlags phdr = segmentFlags phdr := by
  unfold phdrFlags segmentFlags
  split
  · rfl
  · rfl

theorem pagingAlignAddress_ceil {x : Nat} (hx : x + 4095 < 4294967296) :
    pagingAlignAddress x = ceilDiv x 4096 * 4096 := by
  unfold pagingAlignAddress ceilDiv
  split
  · rw [u32_natCast_of_lt (by omega)]
    omega
  · omega

section Segment

variable {file : ElfFile} {phdr : Phdr} {q : Nat}

/-- The address of the segment in the file. -/
theorem PlainSegment.address (h : PlainSegment file phdr) :
    elfPhdrPhysAddress file phdr = file.elfMemory + phdr.pOffset.toNat := by
  have h1 := h.offset
  have h2 := h.phys
  unfold elfPhdrPhysAddress
  rw [u32_of_range (by omega) (by omega)]
  omega

theorem PlainSegment.pages (h : PlainSegment file phdr) (ha : file.elfMemory % 4096 = 0) :
    phdrPages file phdr = ceilDiv (phdr.pVaddr + phdr.pMemsz) 4096 - phdr.pVaddr / 4096 := by
  have h1 := h.offset
  have h2 := h.phys
  have h3 := h.congruent
  unfold phdrPages phdrPhys phdrPhysEnd
  rw [h.address, u32_natCast_of_lt (by omega), pagingAlignAddress_ceil (by omega)]
  unfold pagingAlignToLowerPage ceilDiv
  omega

/-- **A segment maps the pages of its rounded range.** -/
theorem phdrMaps_plain (h : PlainSegment file phdr) (ha : file.elfMemory % 4096 = 0)
    (hq : q < 1048576) : phdrMaps file phdr q ↔ InPages phdr q := by
  have hv := h.virt
  unfold phdrMaps InPages
  rw [h.pages ha]
  unfold phdrOffset phdrVirt pagingAlignToLowerPage ceilDiv
  omega

/-- **A byte of a segment**: its page, and the page of the file that the entry names. -/
theorem PlainSegment.byte (h : PlainSegment file phdr) (ha : file.elfMemory % 4096 = 0) {k : Nat}
    (hk : k < phdr.pMemsz) :
    InPages phdr ((phdr.pVaddr + k) / 4096) ∧
      phdrPhys file phdr + phdrOffset phdr ((phdr.pVaddr + k) / 4096) * 4096 + (phdr.pVaddr + k) %
        4096 = file.elfMemory + phdr.pOffset.toNat + k := by
  have h1 := h.offset
  have h2 := h.phys
  have h3 := h.congruent
  have h4 := h.virt
  constructor
  · unfold InPages ceilDiv
    omega
  · unfold phdrPhys
    rw [h.address]
    unfold phdrOffset phdrVirt pagingAlignToLowerPage
    omega

/-- No segment is refused. -/
theorem PlainSegment.not_refused (h : PlainSegment file phdr) :
    ¬ MapRefused (phdrVirt phdr) (phdrPhys file phdr) (phdrPhysEnd file phdr) := by
  have h1 := h.offset
  have h2 := h.phys
  rw [mapRefused_phdr]
  unfold phdrPhys phdrPhysEnd
  rw [h.address, u32_natCast_of_lt (by omega), pagingAlignAddress_ceil (by omega)]
  unfold pagingAlignToLowerPage ceilDiv
  omega

end Segment

/-! ## 2. All segments -/

/-- No page is in the ranges of two segments. -/
def PagesDisjoint (phdrs : List Phdr) : Prop :=
  phdrs.Pairwise fun phdr other => ∀ q, ¬ (InPages phdr q ∧ InPages other q)

section Segments

variable {m : Mem} {chunk dir : Nat} {file : ElfFile}

/-- A page that one header maps has no other last mapper. -/
theorem lastMapper_unique {q : Nat} {phdr : Phdr} : ∀ {phdrs : List Phdr},
    phdrs.Pairwise (fun a b => ¬ (phdrMaps file a q ∧ phdrMaps file b q)) → phdr ∈ phdrs →
    phdrMaps file phdr q → lastMapper file q phdrs = some phdr
  | [], _, hmem, _ => absurd hmem List.not_mem_nil
  | first :: phdrs, hpw, hmem, hmaps => by
    rw [List.pairwise_cons] at hpw
    rw [lastMapper]
    rcases List.mem_cons.mp hmem with rfl | hmem
    · have hnone : lastMapper file q phdrs = none := by
        rw [Option.eq_none_iff_forall_ne_some]
        intro other ho
        obtain ⟨hmem', hmaps'⟩ := lastMapper_mem ho
        exact hpw.1 other hmem' ⟨hmaps, hmaps'⟩
      rw [hnone, if_pos hmaps, Option.none_or]
    · rw [lastMapper_unique hpw.2 hmem hmaps, Option.some_or]

/-- **No header is refused**: induction on those still to come. -/
theorem processMapElfLoop_ok (hd : DirOk m dir) (hc : ChunkOk m chunk dir)
    (ho : HeadersOutside m dir file) (hok : ∀ phdr ∈ fileHeaders m file,
      ¬ MapRefused (phdrVirt phdr) (phdrPhys file phdr) (phdrPhysEnd file phdr)) (fuel : Nat) :
    ∀ (i : Nat) {m' : Mem}, AgreeOutside m m' dir →
      (processMapElfLoop chunk file (elfPheader m (elfHeader file)) fuel i 0 m').1 = 0 := by
  induction fuel with
  | zero => exact fun _ _ _ => rfl
  | succ fuel ih =>
    intro i m' ha
    rw [processMapElfLoop, ho.ePhnum ha]
    by_cases hlt : i < ePhnum m (elfHeader file)
    · have hmem : phdrNo m file i ∈ fileHeaders m file :=
        List.mem_map_of_mem (List.mem_range'_1.mpr ⟨Nat.zero_le i, by omega⟩)
      have hstatus : (mapPhdr m' chunk file (phdrNo m file i)).1 = 0 :=
        pagingMapTo_status m' chunk _ (hok _ hmem)
      have hnext := ih (i + 1)
        (@AgreeOutside.mapPhdr m m' chunk dir file ha hd hc (phdrNo m file i) (load32_lt ..))
      rw [if_pos hlt, ho.phdr ha hlt]
      generalize mapPhdr m' chunk file (phdrNo m file i) = r at hstatus hnext ⊢
      obtain ⟨res, m''⟩ := r
      obtain rfl : res = 0 := hstatus
      exact hnext
    · rw [if_neg hlt]

theorem processMapElf_ok (hd : DirOk m dir) (hc : ChunkOk m chunk dir)
    (ho : HeadersOutside m dir file)
    (hplain : ∀ phdr ∈ fileHeaders m file, PlainSegment file phdr) :
    (processMapElf m chunk file).1 = 0 :=
  processMapElfLoop_ok hd hc ho (fun phdr hmem => (hplain phdr hmem).not_refused) 65536 0
    ⟨fun _ _ => rfl, fun _ _ => rfl⟩

/-- **The directory behind a file of plain segments**: nothing is refused, every byte of a segment
    is the file's byte, with the flags of its header, and the pages outside all segments keep their
    entries. -/
theorem mapElf_segments (hd : DirOk m dir) (hc : ChunkOk m chunk dir)
    (ho : HeadersOutside m dir file) (ha : file.elfMemory % 4096 = 0)
    (hplain : ∀ phdr ∈ fileHeaders m file, PlainSegment file phdr)
    (hdis : PagesDisjoint (fileHeaders m file)) :
    (processMapElf m chunk file).1 = 0 ∧
    (∀ phdr ∈ fileHeaders m file, ∀ k, k < phdr.pMemsz →
      (pagingGetPhysicalAddress (processMapElf m chunk file).2 dir (phdr.pVaddr + k) : Int) =
        file.elfMemory + phdr.pOffset + k ∧
      pagingGet (processMapElf m chunk file).2 dir (pagingAlignToLowerPage (phdr.pVaddr + k)) &&&
        0xFFF = segmentFlags phdr) ∧
    ∀ q, q < 1048576 → (∀ phdr ∈ fileHeaders m file, ¬ InPages phdr q) →
      pte (processMapElf m chunk file).2 dir q = pte m dir q := by
  have hok := @processMapElf_ok m chunk dir file hd hc ho hplain
  have hheaders : mapElfHeaders m chunk file = fileHeaders m file :=
    mapElfHeadersLoop_file hd hc ho 65536 0 0 ⟨fun _ _ => rfl, fun _ _ => rfl⟩ (Nat.zero_add _)
      (le_of_eq hok.symm)
  have hmaps := @processMapElf_mapsTo m chunk dir file hd hc
  rw [hheaders] at hmaps
  have hiff : ∀ {q : Nat}, q < 1048576 → ∀ phdr ∈ fileHeaders m file,
      (phdrMaps file phdr q ↔ InPages phdr q) := fun hq phdr hmem =>
    phdrMaps_plain (hplain phdr hmem) ha hq
  refine ⟨hok, fun phdr hmem k hk => ?_, fun q hq hno => ?_⟩
  · have hvirt := (hplain phdr hmem).virt
    have hphys := (hplain phdr hmem).phys
    have hoffset := (hplain phdr hmem).offset
    obtain ⟨hin, hbyte⟩ := (hplain phdr hmem).byte ha hk
    have hq : (phdr.pVaddr + k) / 4096 < 1048576 := by omega
    -- the page has one mapper
    have hpw : (fileHeaders m file).Pairwise fun a b =>
        ¬ (phdrMaps file a ((phdr.pVaddr + k) / 4096) ∧
        phdrMaps file b ((phdr.pVaddr + k) / 4096)) :=
      hdis.imp_of_mem fun ha' hb' hno hboth =>
        hno _ ⟨(hiff hq _ ha').mp hboth.1, (hiff hq _ hb').mp hboth.2⟩
    have hmapped := (hiff hq phdr hmem).mpr hin
    have hlast := lastMapper_unique hpw hmem hmapped
    have hentry := hmaps.entry _ hq
    rw [headersEntry, hlast, Option.map_some, Option.getD_some] at hentry
    have hpage := phdrEntry_lt hmapped
    have hal := phdrPhys_aligned file phdr
    obtain ⟨hbase, hflags⟩ := entry_parts (p := phdrPhys file phdr +
      phdrOffset phdr ((phdr.pVaddr + k) / 4096) * 4096) (by omega) (phdrFlags_lt phdr) hpage
    constructor
    · rw [pagingGetPhysicalAddress_eq, hentry, phdrEntry, hbase, hbyte,
        u32_natCast_of_lt (by omega)]
      omega
    · rw [pagingGet_lower, hentry, phdrEntry, hflags, phdrFlags_eq]
  · have hnone : lastMapper file q (fileHeaders m file) = none := by
      rw [Option.eq_none_iff_forall_ne_some]
      intro phdr hlast
      obtain ⟨hmem, hmapped⟩ := lastMapper_mem hlast
      exact hno phdr hmem ((hiff hq phdr hmem).mp hmapped)
    rw [hmaps.entry q hq, headersEntry, hnone, Option.map_none, Option.getD_none]

end Segments

/-! ## 3. Code and data -/

/-- An ELF file of 272 bytes: the header of `bssFile` with two program headers, for 200 bytes from
    the start of the file at `0x400000` and for its last 16 bytes, which can be written, at
    `0x405100`. -/
def segmentsFile : List UInt8 :=
  (bssFile.take 52).set 44 2 ++
    [1, 0, 0, 0, 0, 0, 0, 0, 0, 0, 0x40, 0, 0, 0, 0x40, 0, 200, 0, 0, 0, 200, 0, 0, 0, 5, 0, 0, 0,
      0, 0x10, 0, 0,
      1, 0, 0, 0, 0, 1, 0, 0, 0, 0x51, 0x40, 0, 0, 0x51, 0x40, 0, 16, 0, 0, 0, 16, 0, 0, 0, 6, 0, 0,
      0, 0, 0x10, 0, 0] ++
    List.replicate 156 0

def segmentsElf : ElfFile := ⟨0x01000000, 0x01001000, 0x400000, 0x405110, 0x01001000, 0x01001110⟩

/-- That file in memory, in the second block of the heap. -/
def segmentsMem : Mem := copyIn identityMem 0x01001000 segmentsFile

theorem segmentsMem_other (a : Nat) (ha : a < 4294967296) (h : a < 0x01000000 ∨ 0x08000000 ≤ a) :
    segmentsMem a = identityMem a := by
  have hl : segmentsFile.length = 272 := by decide +kernel
  unfold segmentsMem copyIn
  rw [List.getD_eq_default]
  rw [hl]
  unfold u32
  omega

theorem segmentsMem_fileHeaders : fileHeaders segmentsMem segmentsElf =
    [⟨1, 0, 0x400000, 200, 200, 5⟩, ⟨1, 0x100, 0x405100, 16, 16, 6⟩] := by
  decide +kernel

theorem segmentsMem_headersOutside : HeadersOutside segmentsMem 0x00100000 segmentsElf := by
  have hphnum : ePhnum segmentsMem (elfHeader segmentsElf) = 2 := by decide +kernel
  have hphdrs : elfPheader segmentsMem (elfHeader segmentsElf) = 0x01001034 := by decide +kernel
  refine ⟨fun a _ h2 => identityMem_outside segmentsMem_other ?_,
    fun i hi a _ h2 => identityMem_outside segmentsMem_other ?_⟩
  · have h2' : a < 0x01001000 + 46 := h2
    omega
  · rw [hphnum] at hi
    rw [hphdrs, u32_natCast_of_lt (by omega)] at h2
    omega

/-- The two segments lie in pages of their own. -/
theorem mapElf_segments_two : (processMapElf segmentsMem 0x00200000 segmentsElf).1 = 0 ∧
    (∀ phdr ∈ fileHeaders segmentsMem segmentsElf, ∀ k, k < phdr.pMemsz →
      (pagingGetPhysicalAddress (processMapElf segmentsMem 0x00200000 segmentsElf).2 0x00100000
        (phdr.pVaddr + k) : Int) = segmentsElf.elfMemory + phdr.pOffset + k ∧
      pagingGet (processMapElf segmentsMem 0x00200000 segmentsElf).2 0x00100000
        (pagingAlignToLowerPage (phdr.pVaddr + k)) &&& 0xFFF = segmentFlags phdr) ∧
    ∀ q, q < 1048576 → (∀ phdr ∈ fileHeaders segmentsMem segmentsElf, ¬ InPages phdr q) →
      pte (processMapElf segmentsMem 0x00200000 segmentsElf).2 0x00100000 q =
        pte segmentsMem 0x00100000 q := by
  have hi := identityMem_mapsItself segmentsMem_other
  refine mapElf_segments hi.dirOk hi.chunkOk segmentsMem_headersOutside (by decide)
    (fun phdr hmem => ?_) ?_
  · rw [segmentsMem_fileHeaders] at hmem
    rcases List.mem_cons.mp hmem with rfl | hmem
    · exact ⟨by decide, by decide, by decide, by decide⟩
    · rw [List.mem_singleton.mp hmem]
      exact ⟨by decide, by decide, by decide, by decide⟩
  · rw [segmentsMem_fileHeaders]
    refine List.pairwise_pair.mpr fun q hboth => ?_
    obtain ⟨⟨-, h1⟩, h2, -⟩ := hboth
    have e : ceilDiv (0x400000 + 200) 4096 ≤ 0x405100 / 4096 := by decide
    dsimp only at h1 h2
    omega

end PeachKernel
