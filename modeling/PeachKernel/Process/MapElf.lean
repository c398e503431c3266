/-
  File:      PeachKernel/Process/MapElf.lean
  Subject:   `process_map_elf`: which page entries a loaded ELF file makes the kernel write.

  * `processMapElf` -- the source function; program headers are read from memory at their turn, so
    a header that lies in the page tables would be read as the loop itself left it;
  * `EntryWrite`, `mapElfWrites` -- the entries the call writes, in order; `processMapElf_eq_writes`
    says that the call is these writes and nothing else;
  * `HeaderInside` -- a program header whose page-rounded physical range lies in the file;
  * `mapElf_inside_iff` -- every entry written names a page of the file exactly when every header
    the loop reaches is such a header. Where the header table lies outside the page tables, this is
    a condition on the file as it was loaded (`HeadersInside`);
  * `mapElf_kernel_page` -- a file of 84 bytes with `p_memsz = 8192`, which is accepted and makes
    the page behind its allocation user-writable.
-/
import PeachKernel.Loader.Elf
import PeachKernel.Process.Memory

namespace PeachKernel

open CInt Mem

/-! ## 1. The source function -/

/-- The flags a program header asks for. -/
def phdrFlags (phdr : Phdr) : Nat :=
  if phdr.pFlags &&& pfW ≠ 0 then pagingIsPresent ||| pagingAccessFromAll ||| pagingIsWriteable
  else pagingIsPresent ||| pagingAccessFromAll

/-- The virtual start, physical start and physical end `process_map_elf` passes on. -/
def phdrVirt (phdr : Phdr) : Nat := pagingAlignToLowerPage phdr.pVaddr

def phdrPhys (file : ElfFile) (phdr : Phdr) : Nat :=
  pagingAlignToLowerPage (elfPhdrPhysAddress file phdr)

def phdrPhysEnd (file : ElfFile) (phdr : Phdr) : Nat :=
  pagingAlignAddress (u32 ((elfPhdrPhysAddress file phdr + phdr.pMemsz : Nat) : Int))

/-- The mapping call for one program header. -/
def mapPhdr (m : Mem) (chunk : Nat) (file : ElfFile) (phdr : Phdr) : Int × Mem :=
  pagingMapTo m chunk (phdrVirt phdr) (phdrPhys file phdr) (phdrPhysEnd file phdr) (phdrFlags phdr)

/-- The loop of `process_map_elf` from header `i`; `phdrs` is the header table. `e_phnum` is below
    `2^16`, so a `fuel` of `2^16 - i` is never used up. -/
def processMapElfLoop (chunk : Nat) (file : ElfFile) (phdrs : Nat) :
    (fuel i : Nat) → Int → Mem → Int × Mem
  | 0, _, res, m => (res, m)
  | fuel + 1, i, res, m =>
    if i < ePhnum m (elfHeader file) then
      match mapPhdr m chunk file (phdrAt m (u32 ((phdrs + 32 * i : Nat) : Int))) with
      | (res, m) =>
        if res < 0 then (res, m) else processMapElfLoop chunk file phdrs fuel (i + 1) res m
    else (res, m)

def processMapElf (m : Mem) (chunk : Nat) (file : ElfFile) : Int × Mem :=
  processMapElfLoop chunk file (elfPheader m (elfHeader file)) 65536 0 0 m

/-! ## 2. The entries it writes -/

/-- One page entry written through a directory: the virtual page and the value. -/
structure EntryWrite where
  virt : Nat
  entry : Nat
  deriving DecidableEq

/-- The writes of `paging_map_range`. -/
def mapRangeWrites (flags : Nat) : (count virt phys : Nat) → List EntryWrite
  | 0, _, _ => []
  | count + 1, virt, phys =>
    ⟨virt, phys ||| flags⟩ :: mapRangeWrites flags count (u32 (virt + 4096)) (u32 (phys + 4096))

/-- The writes of `paging_map_to`. -/
def mapToWrites (virt phys physEnd flags : Nat) : List EntryWrite :=
  if MapRefused virt phys physEnd then [] else
    mapRangeWrites flags ((physEnd - phys) / 4096) virt phys

/-- The writes for one program header. -/
def phdrWrites (file : ElfFile) (phdr : Phdr) : List EntryWrite :=
  mapToWrites (phdrVirt phdr) (phdrPhys file phdr) (phdrPhysEnd file phdr) (phdrFlags phdr)

/-- The writes of the loop of `process_map_elf`. -/
def mapElfWritesLoop (chunk : Nat) (file : ElfFile) (phdrs : Nat) :
    (fuel i : Nat) → Mem → List EntryWrite
  | 0, _, _ => []
  | fuel + 1, i, m =>
    if i < ePhnum m (elfHeader file) then
      let phdr := phdrAt m (u32 ((phdrs + 32 * i : Nat) : Int))
      match mapPhdr m chunk file phdr with
      | (res, m) =>
        if res < 0 then phdrWrites file phdr
        else phdrWrites file phdr ++ mapElfWritesLoop chunk file phdrs fuel (i + 1) m
    else []

def mapElfWrites (m : Mem) (chunk : Nat) (file : ElfFile) : List EntryWrite :=
  mapElfWritesLoop chunk file (elfPheader m (elfHeader file)) 65536 0 m

/-- Performing writes of entries, through the directory the chunk names. -/
def applyWrites (chunk : Nat) (ws : List EntryWrite) (m : Mem) : Mem :=
  ws.foldl (fun m w => (pagingSet m (load32 m chunk) w.virt w.entry).2) m

theorem mapRangeWrites_apply (chunk flags count : Nat) :
    ∀ {virt phys : Nat} {m : Mem}, virt % 4096 = 0 → phys % 4096 = 0 →
      (pagingMapRange chunk flags count virt phys 0 m).2 =
        applyWrites chunk (mapRangeWrites flags count virt phys) m := by
  induction count with
  | zero =>
    intro virt phys m _ _
    rfl
  | succ count ih =>
    intro virt phys m hv hp
    have hmap := pagingMap_of_aligned m chunk flags hv hp
    have hset := pagingSet_of_aligned m (load32 m chunk) (phys ||| flags) hv
    simp only [pagingMapRange, hmap]
    rw [if_neg (by decide), ih (by unfold u32; omega) (by unfold u32; omega)]
    simp only [mapRangeWrites, applyWrites, List.foldl_cons, hset]

theorem mapToWrites_apply (m : Mem) (chunk virt phys physEnd flags : Nat) :
    (pagingMapTo m chunk virt phys physEnd flags).2 =
      applyWrites chunk (mapToWrites virt phys physEnd flags) m := by
  unfold mapToWrites
  by_cases h : MapRefused virt phys physEnd
  · rw [pagingMapTo_refused m chunk flags h, if_pos h]
    rfl
  · rw [if_neg h]
    unfold MapRefused at h
    unfold pagingMapTo
    rw [if_neg (by omega), if_neg (by omega), if_neg (by omega), if_neg (by omega)]
    exact mapRangeWrites_apply chunk flags _ (by omega) (by omega)

theorem applyWrites_append (chunk : Nat) (ws ws' : List EntryWrite) (m : Mem) :
    applyWrites chunk (ws ++ ws') m = applyWrites chunk ws' (applyWrites chunk ws m) :=
  List.foldl_append

theorem processMapElfLoop_eq_writes (chunk : Nat) (file : ElfFile) (phdrs fuel : Nat) :
    ∀ (i : Nat) (res : Int) (m : Mem), (processMapElfLoop chunk file phdrs fuel i res m).2 =
      applyWrites chunk (mapElfWritesLoop chunk file phdrs fuel i m) m := by
  induction fuel with
  | zero =>
    intro i res m
    rfl
  | succ fuel ih =>
    intro i res m
    simp only [processMapElfLoop, mapElfWritesLoop]
    by_cases hi : i < ePhnum m (elfHeader file)
    · rw [if_pos hi, if_pos hi]
      have hone : (mapPhdr m chunk file (phdrAt m (u32 ((phdrs + 32 * i : Nat) : Int)))).2 =
          applyWrites chunk (phdrWrites file (phdrAt m (u32 ((phdrs + 32 * i : Nat) : Int)))) m :=
        mapToWrites_apply ..
      generalize mapPhdr m chunk file (phdrAt m (u32 ((phdrs + 32 * i : Nat) : Int))) = r at hone
      obtain ⟨res', m'⟩ := r
      dsimp only at hone ⊢
      by_cases hres : res' < 0
      · rw [if_pos hres, if_pos hres]
        exact hone
      · rw [if_neg hres, if_neg hres, ih, applyWrites_append, hone]
    · rw [if_neg hi, if_neg hi]
      rfl

/-- **The call is its writes**, and nothing else. -/
theorem processMapElf_eq_writes (m : Mem) (chunk : Nat) (file : ElfFile) :
    (processMapElf m chunk file).2 = applyWrites chunk (mapElfWrites m chunk file) m :=
  processMapElfLoop_eq_writes ..

/-! ## 3. Entries that name pages of the file -/

/-- The page an entry names lies in the allocation that holds the file: from its start to its end,
    rounded up to a page. -/
def PageInside (file : ElfFile) (filesize : Nat) (w : EntryWrite) : Prop :=
  file.elfMemory ≤ w.entry &&& 0xFFFFF000 ∧
    (w.entry &&& 0xFFFFF000) + 4096 ≤ file.elfMemory + ceilDiv filesize 4096 * 4096

/-- **The property**: every entry `process_map_elf` writes with `PAGING_ACCESS_FROM_ALL` names a
    page of the file. -/
def MapsOwnFile (m : Mem) (chunk : Nat) (file : ElfFile) (filesize : Nat) : Prop :=
  ∀ w ∈ mapElfWrites m chunk file, w.entry &&& pagingAccessFromAll ≠ 0 → PageInside file filesize w

/-- **A program header inside the file**: its physical range, rounded out to pages, is empty (or
    ends before it starts, and is refused), or lies in the allocation that holds the file. -/
def HeaderInside (file : ElfFile) (filesize : Nat) (phdr : Phdr) : Prop :=
  phdrPhysEnd file phdr ≤ phdrPhys file phdr ∨
  (file.elfMemory ≤ phdrPhys file phdr ∧
    phdrPhysEnd file phdr ≤ file.elfMemory + ceilDiv filesize 4096 * 4096)

/-- The headers the loop reaches from header `i` on are inside the file. -/
def HeadersInsideFrom (chunk : Nat) (file : ElfFile) (filesize phdrs : Nat) :
    (fuel i : Nat) → Mem → Prop
  | 0, _, _ => True
  | fuel + 1, i, m =>
    let phdr := phdrAt m (u32 ((phdrs + 32 * i : Nat) : Int))
    i < ePhnum m (elfHeader file) → HeaderInside file filesize phdr ∧
      (¬ MapRefused (phdrVirt phdr) (phdrPhys file phdr) (phdrPhysEnd file phdr) →
        HeadersInsideFrom chunk file filesize phdrs fuel (i + 1) (mapPhdr m chunk file phdr).2)

section Range

variable {file : ElfFile} {filesize : Nat} {phdr : Phdr}

theorem phdrFlags_cases (phdr : Phdr) : phdrFlags phdr = 5 ∨ phdrFlags phdr = 7 := by
  unfold phdrFlags
  split
  · exact Or.inr rfl
  · exact Or.inl rfl

theorem phdrPhys_aligned (file : ElfFile) (phdr : Phdr) : phdrPhys file phdr % 4096 = 0 := by
  unfold phdrPhys pagingAlignToLowerPage
  omega

theorem phdrPhysEnd_aligned (file : ElfFile) (phdr : Phdr) : phdrPhysEnd file phdr % 4096 = 0 := by
  unfold phdrPhysEnd pagingAlignAddress
  split
  · unfold u32
    omega
  · omega

theorem phdrPhysEnd_lt (file : ElfFile) (phdr : Phdr) : phdrPhysEnd file phdr < 4294967296 := by
  have := u32_lt ((elfPhdrPhysAddress file phdr + phdr.pMemsz : Nat) : Int)
  unfold phdrPhysEnd pagingAlignAddress
  split
  · exact u32_lt _
  · exact this

/-- The range of a header is refused only when it ends before it starts. -/
theorem mapRefused_phdr (file : ElfFile) (phdr : Phdr) :
    MapRefused (phdrVirt phdr) (phdrPhys file phdr) (phdrPhysEnd file phdr) ↔
      phdrPhysEnd file phdr < phdrPhys file phdr := by
  have h1 : phdrVirt phdr % 4096 = 0 := by
    unfold phdrVirt pagingAlignToLowerPage
    omega
  have h2 := phdrPhys_aligned file phdr
  have h3 := phdrPhysEnd_aligned file phdr
  unfold MapRefused
  omega

/-- The page `phys + j * 4096`, with flags. -/
theorem entry_page {p f : Nat} (hp : p % 4096 = 0) (hf : f < 4096) (hb : p < 4294967296) :
    (p ||| f) &&& 0xFFFFF000 = p := by
  rw [or_flags hp hf, and_pageMask (by omega)]
  omega

theorem entry_access (p : Nat) {f : Nat} (hf : f = 5 ∨ f = 7) :
    (p ||| f) &&& pagingAccessFromAll ≠ 0 := by
  have h : (p ||| f).testBit 2 = true := by
    rw [Nat.testBit_or]
    rcases hf with rfl | rfl
    · rw [show (5 : Nat).testBit 2 = true from rfl, Bool.or_true]
    · rw [show (7 : Nat).testBit 2 = true from rfl, Bool.or_true]
  intro h0
  have h2 : ((p ||| f) &&& pagingAccessFromAll).testBit 2 = true := by
    rw [Nat.testBit_and, h]
    rfl
  rw [h0] at h2
  exact absurd h2 (by decide)

/-- The values a range writes: consecutive pages, each with the flags. -/
theorem mem_mapRangeWrites {flags : Nat} (count : Nat) :
    ∀ {virt phys : Nat}, phys % 4096 = 0 → phys + count * 4096 ≤ 4294967296 → ∀ {e : Nat},
      ((∃ w ∈ mapRangeWrites flags count virt phys, w.entry = e) ↔
        ∃ j, j < count ∧ e = (phys + j * 4096) ||| flags) := by
  induction count with
  | zero =>
    intro virt phys _ _ e
    constructor
    · rintro ⟨w, hw, _⟩
      exact absurd hw List.not_mem_nil
    · rintro ⟨j, hj, _⟩
      exact absurd hj (Nat.not_lt_zero _)
  | succ count ih =>
    intro virt phys hp hb e
    have hrest : (∃ w ∈ mapRangeWrites flags count (u32 (virt + 4096)) (u32 (phys + 4096)),
        w.entry = e) ↔ ∃ j, j < count ∧ e = (phys + 4096 + j * 4096) ||| flags := by
      rcases Nat.eq_zero_or_pos count with rfl | hpos
      · simp [mapRangeWrites]
      · have ep : u32 ((phys : Int) + 4096) = phys + 4096 := by
          unfold u32
          omega
        rw [ep]
        exact ih (by omega) (by omega)
    simp only [mapRangeWrites, List.mem_cons, exists_eq_or_imp, hrest]
    constructor
    · rintro (h | ⟨j, hj, h⟩)
      · exact ⟨0, by omega, by rw [← h, Nat.zero_mul, Nat.add_zero]⟩
      · refine ⟨j + 1, by omega, ?_⟩
        rw [h]
        congr 1
        omega
    · rintro ⟨j, hj, h⟩
      cases j with
      | zero =>
        rw [Nat.zero_mul, Nat.add_zero] at h
        exact Or.inl h.symm
      | succ j =>
        refine Or.inr ⟨j, by omega, ?_⟩
        rw [h]
        congr 1
        omega

/-- **One header**: its entries name pages of the file exactly when it is inside the file. -/
theorem phdrWrites_inside_iff :
    (∀ w ∈ phdrWrites file phdr, w.entry &&& pagingAccessFromAll ≠ 0 → PageInside file filesize w) ↔
      HeaderInside file filesize phdr := by
  have hp := phdrPhys_aligned file phdr
  have he := phdrPhysEnd_aligned file phdr
  have hlt := phdrPhysEnd_lt file phdr
  have hf := phdrFlags_cases phdr
  have hf' : phdrFlags phdr < 4096 := by omega
  unfold phdrWrites mapToWrites
  by_cases hr : MapRefused (phdrVirt phdr) (phdrPhys file phdr) (phdrPhysEnd file phdr)
  · rw [if_pos hr]
    have := (mapRefused_phdr file phdr).mp hr
    exact ⟨fun _ => Or.inl (by omega), fun _ w hw => absurd hw List.not_mem_nil⟩
  · rw [if_neg hr]
    have hle : ¬ phdrPhysEnd file phdr < phdrPhys file phdr := mt (mapRefused_phdr file phdr).mpr hr
    have hmem := @mem_mapRangeWrites (phdrFlags phdr)
      ((phdrPhysEnd file phdr - phdrPhys file phdr) / 4096) (phdrVirt phdr) (phdrPhys file phdr) hp
      (by omega)
    constructor
    · intro h
      -- the first and the last page decide
      by_cases h0 : phdrPhysEnd file phdr ≤ phdrPhys file phdr
      · exact Or.inl h0
      · refine Or.inr ?_
        have page : ∀ j, j < (phdrPhysEnd file phdr - phdrPhys file phdr) / 4096 →
            file.elfMemory ≤ phdrPhys file phdr + j * 4096 ∧
            phdrPhys file phdr + j * 4096 + 4096 ≤
              file.elfMemory + ceilDiv filesize 4096 * 4096 := by
          intro j hj
          obtain ⟨w, hw, e⟩ := hmem.mpr ⟨j, hj, rfl⟩
          have ha := entry_access (phdrPhys file phdr + j * 4096) hf
          rw [← e] at ha
          have hin := h w hw ha
          unfold PageInside at hin
          rw [e, entry_page (by omega) hf' (by omega)] at hin
          exact hin
        have hfirst := page 0 (by omega)
        have hlast := page ((phdrPhysEnd file phdr - phdrPhys file phdr) / 4096 - 1) (by omega)
        omega
    · rintro (h | ⟨h1, h2⟩) w hw _
      · obtain ⟨j, hj, _⟩ := hmem.mp ⟨w, hw, rfl⟩
        omega
      · obtain ⟨j, hj, e⟩ := hmem.mp ⟨w, hw, rfl⟩
        unfold PageInside
        rw [e, entry_page (by omega) hf' (by omega)]
        omega

end Range

/-- The status of a header's call. -/
theorem mapPhdr_status (m : Mem) (chunk : Nat) (file : ElfFile) (phdr : Phdr) :
    (mapPhdr m chunk file phdr).1 < 0 ↔
      MapRefused (phdrVirt phdr) (phdrPhys file phdr) (phdrPhysEnd file phdr) := by
  unfold mapPhdr
  constructor
  · intro h
    by_contra hr
    rw [pagingMapTo_status m chunk _ hr] at h
    exact absurd h (by decide)
  · intro hr
    rw [pagingMapTo_refused m chunk _ hr]
    show -EINVARG < 0
    decide

/-- The loop: induction on the headers that may still come. -/
theorem mapElfWritesLoop_inside_iff (chunk : Nat) (file : ElfFile) (filesize phdrs fuel : Nat) :
    ∀ (i : Nat) (m : Mem),
      (∀ w ∈ mapElfWritesLoop chunk file phdrs fuel i m,
        w.entry &&& pagingAccessFromAll ≠ 0 → PageInside file filesize w) ↔
      HeadersInsideFrom chunk file filesize phdrs fuel i m := by
  induction fuel with
  | zero =>
    intro i m
    exact ⟨fun _ => trivial, fun _ w hw => absurd hw List.not_mem_nil⟩
  | succ fuel ih =>
    intro i m
    simp only [mapElfWritesLoop, HeadersInsideFrom]
    by_cases hi : i < ePhnum m (elfHeader file)
    · rw [if_pos hi]
      generalize phdrAt m (u32 ((phdrs + 32 * i : Nat) : Int)) = phdr
      have hst := mapPhdr_status m chunk file phdr
      rw [← phdrWrites_inside_iff]
      by_cases hr : MapRefused (phdrVirt phdr) (phdrPhys file phdr) (phdrPhysEnd file phdr)
      · rw [if_pos (hst.mpr hr)]
        exact ⟨fun h _ => ⟨h, fun hn => absurd hr hn⟩, fun h => (h hi).1⟩
      · rw [if_neg (mt hst.mp hr)]
        constructor
        · intro h _
          refine ⟨fun w hw => h w (List.mem_append_left _ hw), fun _ => (ih _ _).mp fun w hw => ?_⟩
          exact h w (List.mem_append_right _ hw)
        · intro h w hw
          rcases List.mem_append.mp hw with hw | hw
          · exact (h hi).1 w hw
          · exact (ih _ _).mpr ((h hi).2 hr) w hw
    · rw [if_neg hi]
      exact ⟨fun _ hlt => absurd hlt hi, fun _ w hw => absurd hw List.not_mem_nil⟩

/-! ## 4. The condition on the file -/

/-- Program header `i`, as it stands in memory before the call. -/
def phdrNo (m : Mem) (file : ElfFile) (i : Nat) : Phdr :=
  phdrAt m (u32 ((elfPheader m (elfHeader file) + 32 * i : Nat) : Int))

/-- **Every program header that is reached is inside the file**: those before the first one that is
    refused. -/
def HeadersInside (m : Mem) (file : ElfFile) (filesize : Nat) : Prop :=
  ∀ i, i < ePhnum m (elfHeader file) →
    (∀ j, j < i → ¬ MapRefused (phdrVirt (phdrNo m file j)) (phdrPhys file (phdrNo m file j))
      (phdrPhysEnd file (phdrNo m file j))) → HeaderInside file filesize (phdrNo m file i)

/-- The number of headers and the header table lie outside the page tables of a directory. -/
structure HeadersOutside (m : Mem) (dir : Nat) (file : ElfFile) : Prop where
  phnum : ∀ a, elfHeader file + 44 ≤ a → a < elfHeader file + 46 → OutsideTables m dir a
  table : ∀ i, i < ePhnum m (elfHeader file) → ∀ a,
    u32 ((elfPheader m (elfHeader file) + 32 * i : Nat) : Int) ≤ a →
    a < u32 ((elfPheader m (elfHeader file) + 32 * i : Nat) : Int) + 32 → OutsideTables m dir a

theorem phdrAt_congr {m m' : Mem} {a : Nat} (h : ∀ b, a ≤ b → b < a + 32 → m' b = m b) :
    phdrAt m' a = phdrAt m a := by
  have e : ∀ d, d + 4 ≤ 32 → load32 m' (a + d) = load32 m (a + d) := fun d hd =>
    load32_congr fun b h1 h2 => h b (by omega) (by omega)
  unfold phdrAt
  rw [show load32 m' a = load32 m a from e 0 (by decide), e 4 (by decide), e 8 (by decide),
    e 16 (by decide), e 20 (by decide), e 24 (by decide)]

/-- Two memories with the same tables that agree outside them. -/
def AgreeOutside (m m' : Mem) (dir : Nat) : Prop :=
  (∀ i, i < 1024 → tableOf m' dir i = tableOf m dir i) ∧ ∀ a, OutsideTables m dir a → m' a = m a

section Condition

variable {m m' : Mem} {chunk dir : Nat} {file : ElfFile} {filesize : Nat}

theorem HeadersOutside.phdr (ho : HeadersOutside m dir file) (ha : AgreeOutside m m' dir) {i : Nat}
    (hi : i < ePhnum m (elfHeader file)) :
    phdrAt m' (u32 ((elfPheader m (elfHeader file) + 32 * i : Nat) : Int)) = phdrNo m file i :=
  phdrAt_congr fun b h1 h2 => ha.2 b (ho.table i hi b h1 h2)

theorem HeadersOutside.ePhnum (ho : HeadersOutside m dir file) (ha : AgreeOutside m m' dir) :
    ePhnum m' (elfHeader file) = ePhnum m (elfHeader file) :=
  load16_congr fun b h1 h2 => ha.2 b (ho.phnum b h1 h2)

/-- A header's call keeps the memory outside the tables. -/
theorem AgreeOutside.mapPhdr (ha : AgreeOutside m m' dir) (hd : DirOk m dir)
    (hc : ChunkOk m chunk dir) {phdr : Phdr} (hp : phdr.pVaddr < 4294967296) :
    AgreeOutside m (mapPhdr m' chunk file phdr).2 dir := by
  have hd' : DirOk m' dir := hd.of_tables ha.1
  have hc' : ChunkOk m' chunk dir :=
    ⟨(load32_congr fun b h1 h2 => ha.2 b (hc.2 b h1 h2)).trans hc.1,
      fun a h1 h2 => (hc.2 a h1 h2).of_tables ha.1⟩
  by_cases hr : MapRefused (phdrVirt phdr) (phdrPhys file phdr) (phdrPhysEnd file phdr)
  · unfold PeachKernel.mapPhdr
    rw [pagingMapTo_refused m' chunk _ hr]
    exact ha
  · have hv : phdrVirt phdr < 4294967296 := by
      unfold phdrVirt pagingAlignToLowerPage
      omega
    have hf : phdrFlags phdr < 4096 := by
      have := phdrFlags_cases phdr
      omega
    obtain ⟨m'', e, hm⟩ := pagingMapTo_ok hf hd' hc' hv (phdrPhysEnd_lt file phdr) hr
    unfold PeachKernel.mapPhdr
    rw [e]
    exact ⟨fun i hi => (hm.tables i hi).trans (ha.1 i hi), fun a ho =>
      (hm.frame a (ho.of_tables ha.1)).trans (ha.2 a ho)⟩

theorem headersInsideFrom_iff (hd : DirOk m dir) (hc : ChunkOk m chunk dir)
    (ho : HeadersOutside m dir file) (fuel : Nat) :
    ∀ {i : Nat} {m' : Mem}, AgreeOutside m m' dir → i + fuel = 65536 →
      (∀ j, j < i → ¬ MapRefused (phdrVirt (phdrNo m file j)) (phdrPhys file (phdrNo m file j))
        (phdrPhysEnd file (phdrNo m file j))) →
      (HeadersInsideFrom chunk file filesize (elfPheader m (elfHeader file)) fuel i m' ↔
        ∀ n, i ≤ n → n < ePhnum m (elfHeader file) →
          (∀ j, j < n → ¬ MapRefused (phdrVirt (phdrNo m file j)) (phdrPhys file (phdrNo m file j))
            (phdrPhysEnd file (phdrNo m file j))) →
          HeaderInside file filesize (phdrNo m file n)) := by
  induction fuel with
  | zero =>
    intro i m' _ hi _
    have hlt : ePhnum m (elfHeader file) < 65536 := load16_lt ..
    exact ⟨fun _ n hn hlt' => by omega, fun _ => trivial⟩
  | succ fuel ih =>
    intro i m' ha hi hprev
    simp only [HeadersInsideFrom, ho.ePhnum ha]
    by_cases hlt : i < ePhnum m (elfHeader file)
    · rw [ho.phdr ha hlt]
      constructor
      · intro h n hn hn' hno
        obtain ⟨h1, h2⟩ := h hlt
        rcases Nat.eq_or_lt_of_le hn with rfl | hlt'
        · exact h1
        · have hri := hno i hlt'
          refine (ih (ha.mapPhdr hd hc (load32_lt ..)) (by omega) fun j hj => ?_).mp
            (h2 hri) n hlt' hn' hno
          rcases Nat.lt_succ_iff_lt_or_eq.mp hj with hj | rfl
          · exact hprev j hj
          · exact hri
      · intro h _
        refine ⟨h i (Nat.le_refl i) hlt hprev, fun hri => ?_⟩
        refine (ih (ha.mapPhdr hd hc (load32_lt ..)) (by omega) fun j hj => ?_).mpr fun n hn =>
          h n (by omega)
        rcases Nat.lt_succ_iff_lt_or_eq.mp hj with hj | rfl
        · exact hprev j hj
        · exact hri
    · exact ⟨fun _ n hn hn' => absurd (lt_of_le_of_lt hn hn') hlt, fun _ h => absurd h hlt⟩

/-- **The entries name pages of the file exactly when the headers that are reached lie inside it.**
    With the header table outside the page tables of the directory, these are the headers of the
    file as it was loaded. -/
theorem mapElf_inside_iff (m : Mem) (chunk : Nat) (file : ElfFile) (filesize : Nat) :
    (MapsOwnFile m chunk file filesize ↔
      HeadersInsideFrom chunk file filesize (elfPheader m (elfHeader file)) 65536 0 m) ∧
    ∀ dir, DirOk m dir → ChunkOk m chunk dir → HeadersOutside m dir file →
      (MapsOwnFile m chunk file filesize ↔ HeadersInside m file filesize) := by
  have h : MapsOwnFile m chunk file filesize ↔
      HeadersInsideFrom chunk file filesize (elfPheader m (elfHeader file)) 65536 0 m :=
    mapElfWritesLoop_inside_iff ..
  refine ⟨h, fun dir hd hc ho => h.trans ?_⟩
  rw [headersInsideFrom_iff hd hc ho 65536 ⟨fun _ _ => rfl, fun _ _ => rfl⟩ (by omega)
    fun j hj => absurd hj (Nat.not_lt_zero _)]
  exact ⟨fun hn i hi => hn i (Nat.zero_le i) hi, fun hn i _ hi => hn i hi⟩

end Condition

/-! ## 5. A file that maps its own pages, and one that maps a page of the kernel -/

/-- An ELF file of 84 bytes: header, and one `PT_LOAD` header with `p_vaddr = 0x400000`,
    `p_filesz = 84`, `p_memsz = 8192` and `PF_W`. -/
def bssFile : List UInt8 :=
  [0x7f, 0x45, 0x4c, 0x46, 1, 1, 1, 0, 0, 0, 0, 0, 0, 0, 0, 0,
    2, 0, 3, 0, 1, 0, 0, 0, 0, 0, 0x40, 0, 52, 0, 0, 0, 0, 0, 0, 0, 0, 0, 0, 0,
    52, 0, 32, 0, 1, 0, 40, 0, 0, 0, 0, 0,
    1, 0, 0, 0, 0, 0, 0, 0, 0, 0, 0x40, 0, 0, 0, 0x40, 0, 84, 0, 0, 0, 0, 0x20, 0, 0, 6, 0, 0, 0,
    0, 0x10, 0, 0]

/-- `bssFile` with `p_memsz = p_filesz`. -/
def plainFile : List UInt8 := (bssFile.set 72 84).set 73 0

/-- That file in memory, in the second block of the heap. -/
def plainMem : Mem := copyIn identityMem 0x01001000 plainFile

def plainElf : ElfFile := ⟨0x01000000, 0x01001000, 0x400000, 0x400054, 0x01001000, 0x01001054⟩

theorem plainMem_other {a : Nat} (ha : a < 4294967296) (h : a < 0x01001000 ∨ 0x01002000 ≤ a) :
    plainMem a = identityMem a := by
  have hl : plainFile.length = 84 := by decide
  unfold plainMem copyIn
  rw [List.getD_eq_default]
  rw [hl]
  unfold u32
  omega

theorem plainMem_tableOf {i : Nat} (hi : i < 1024) :
    tableOf plainMem 0x00100000 i = tableOf identityMem 0x00100000 i := by
  unfold tableOf
  rw [load32_congr fun b h1 h2 => plainMem_other (by omega) (by omega)]

/-- The page tables lie behind the heap. -/
theorem plainMem_outside {a : Nat} (h : a < 0x08000000) : OutsideTables plainMem 0x00100000 a := by
  intro i hi
  rw [plainMem_tableOf hi, identityMem_tableOf hi]
  omega

theorem plainMem_dirOk : DirOk plainMem 0x00100000 :=
  identityMem_dirOk.of_tables fun _ hi => plainMem_tableOf hi

theorem plainMem_chunkOk : ChunkOk plainMem 0x00200000 0x00100000 := by
  refine ⟨?_, fun a h1 h2 => plainMem_outside (by omega)⟩
  rw [load32_congr fun b h1 h2 => plainMem_other (by omega) (by omega)]
  exact identityMem_chunkOk.1

theorem plainMem_ePhnum : ePhnum plainMem (elfHeader plainElf) = 1 := by decide +kernel

theorem plainMem_headersOutside : HeadersOutside plainMem 0x00100000 plainElf := by
  have htable : u32 ((elfPheader plainMem (elfHeader plainElf) + 32 * 0 : Nat) : Int) =
      0x01001034 := by
    decide +kernel
  refine ⟨fun a _ h2 => plainMem_outside ?_, fun i hi a _ h2 => plainMem_outside ?_⟩
  · have h2' : a < 0x01001000 + 46 := h2
    omega
  · rw [plainMem_ePhnum] at hi
    obtain rfl : i = 0 := by omega
    rw [htable] at h2
    omega

/-- **A file whose segment is not larger than its bytes** is mapped to its own pages. -/
theorem mapElf_inside_iff_plain :
    HeadersOutside plainMem 0x00100000 plainElf ∧ MapsOwnFile plainMem 0x00200000 plainElf 84 := by
  have ho := plainMem_headersOutside
  refine ⟨ho, ((mapElf_inside_iff plainMem 0x00200000 plainElf 84).2 _ plainMem_dirOk
    plainMem_chunkOk ho).mpr fun i hi _ => ?_⟩
  rw [plainMem_ePhnum] at hi
  obtain rfl : i = 0 := by omega
  unfold HeaderInside
  decide +kernel

/-- `bssFile` on a disk that delivers it in full. -/
def bssOutcome : FileOutcome := ⟨1, 0, 84, 1, bssFile⟩

/-- The kernel before the file is loaded: the fresh heap, and a directory that maps every page to
    itself. -/
def bssKernel : Kernel := ⟨kernelHeap fun _ => 0, identityMem⟩

/-- **`bssFile` is accepted, and makes the page behind its allocation user-writable.** -/
theorem mapElf_kernel_page : ¬ ∀ (k : Kernel) (f : FileOutcome) (file : ElfFile) (chunk : Nat),
    (elfLoad k f).1 = 0 → (elfLoad k f).2.1 = some file →
    MapsOwnFile (elfLoad k f).2.2.mem chunk file f.filesize := by
  intro h
  have h0 : (elfLoad bssKernel bssOutcome).1 = 0 := by decide +kernel
  have h1 : (elfLoad bssKernel bssOutcome).2.1 =
      some ⟨0x01000000, 0x01001000, 0x400000, 0x400054, 0x01001000, 0x01001054⟩ := by
    decide +kernel
  have hw : (⟨0x401000, 0x01002007⟩ : EntryWrite) ∈ mapElfWrites
      (elfLoad bssKernel bssOutcome).2.2.mem 0x00200000 ⟨0x01000000, 0x01001000, 0x400000, 0x400054,
          0x01001000, 0x01001054⟩ := by
    decide +kernel
  have hin := h bssKernel bssOutcome _ 0x00200000 h0 h1 _ hw (by decide)
  exact absurd hin.2 (by decide)

end PeachKernel
