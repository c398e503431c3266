/-
  File:      PeachKernel/Process/MapPages.lean
  Subject:   `process_map_elf`: which virtual pages of a task's directory an ELF file changes.

  A new task's directory maps every page to itself, so that the kernel runs on it between the switch
  and `iretd`. The loop over the program headers then maps each header's range, whatever its type
  and wherever it lies; where ranges overlap, the last header counts.

  * `MapsItself` -- every page is mapped to itself; `taskInit_mapsItself` -- so it is for a new
    task;
  * `mapElfHeaders`, `lastMapper` -- the headers as the loop reads them, and the last one that maps
    a page; `processMapElf_mapsTo` -- the directory behind the call;
  * `KernelKept` -- only user pages of `PT_LOAD` headers change, and kernel pages stay;
  * `mapElf_kept_iff` -- exactly when the last header of every page does no harm there.
-/
import PeachKernel.Paging.Calls
import PeachKernel.Process.MapElf
import PeachKernel.Task.List

namespace PeachKernel

open CInt Mem

/-! ## 1. A directory that maps every page to itself -/

/-- **Every page is mapped to itself**, readable from all. -/
structure MapsItself (m : Mem) (chunk dir : Nat) : Prop where
  dirOk : DirOk m dir
  chunkOk : ChunkOk m chunk dir
  entry : ∀ q, q < 1048576 → pte m dir q = (q * 4096) ||| (pagingIsPresent ||| pagingAccessFromAll)

section Fresh

variable {m : Mem} {d : Directory} {heap : Heap} {live : List Allocation}

theorem HasDirectory.tableOf (h : HasDirectory m d) {i : Nat} (hi : i < 1024) :
    PeachKernel.tableOf m d.directory i = d.tables.getD i 0 := h.word i hi

theorem HasDirectory.mem_tables (h : HasDirectory m d) {i : Nat} (hi : i < 1024) :
    d.tables.getD i 0 ∈ d.tables := by
  rw [List.getD_eq_getElem _ _ (by rw [h.length]; exact hi)]
  exact List.getElem_mem _

/-- The tables of a directory that is live in a heap are different pages. -/
theorem HeapInv.dirOk (h : HeapInv heap (d.allocations ++ live)) (hd : HasDirectory m d) :
    DirOk m d.directory := by
  have hnd := List.nodup_append.mp (List.nodup_append.mp h.nodup).1
  have hdir := h.end_lt (List.mem_append_left _
    (List.mem_append_right _ (List.mem_cons_self (a := tableAlloc d.directory))))
  rw [tableAlloc_blocks] at hdir
  refine ⟨hdir.1, Nat.le_of_lt hdir.2, fun i hi e => ?_, fun i j hi hj e => ?_⟩
  · rw [hd.tableOf hi] at e
    exact hnd.2.2 _ (List.mem_map_of_mem (hd.mem_tables hi)) _ List.mem_cons_self
      (congrArg tableAlloc e)
  · have hi' : i < d.tables.length := by rw [hd.length]; exact hi
    have hj' : j < d.tables.length := by rw [hd.length]; exact hj
    rw [hd.tableOf hi, hd.tableOf hj, List.getD_eq_getElem _ _ hi',
      List.getD_eq_getElem _ _ hj'] at e
    exact ((List.Nodup.of_map _ hnd.1).getElem_inj_iff).mp e

/-- The entry of a page, in a table of consecutive pages. -/
theorem HasDirectory.pte_identity (hd : HasDirectory m d) {flags : Nat}
    (hid : TablesIdentity m flags d.tables) {q : Nat} (hq : q < 1048576) :
    pte m d.directory q = (q * 4096) ||| flags := by
  have hi : q / 1024 < 1024 := Nat.div_lt_of_lt_mul hq
  have hentry := hid (q / 1024) (by rw [hd.length]; exact hi) (q % 1024) (Nat.mod_lt _ (by decide))
  unfold pte
  rw [hd.tableOf hi, hentry, Nat.div_add_mod']

theorem HeapInv.mapsItself (h : HeapInv heap (d.allocations ++ live)) (hd : HasDirectory m d)
    (hid : TablesIdentity m (pagingIsPresent ||| pagingAccessFromAll) d.tables) :
    MapsItself m d.chunk d.directory := by
  refine ⟨h.dirOk hd, ⟨hd.chunk, fun a h1 h2 i hi => ?_⟩, fun q hq => hd.pte_identity hid hq⟩
  have hs := h.separate (fun x hx => List.mem_append_left _ hx) (List.nodup_append.mp h.nodup).1
  rw [hd.tableOf hi]
  exact hs.chunk _ (hd.mem_tables hi) a h1 h2

/-- **The directory of a new task.** -/
theorem taskInit_mapsItself {k k₁ : Kernel} {t : Nat} (hg : Grows k k₁ live [taskAlloc t])
    (hb : t + 4096 ≤ 4294967296) (hf : 1026 ≤ freeBlocks k₁.heap) (process : TaskProcess) :
    ∃ k' dir, taskInit k₁ t process = (0, k') ∧
    MapsItself k'.mem (pageDirectoryOf k'.mem t) dir := by
  obtain ⟨k', d, hinit, hmade⟩ := taskInit_grows hg hb hf process
  have hinv := hmade.grows.inv
  rw [List.append_assoc] at hinv
  exact ⟨k', d.directory, hinit, hmade.chunk ▸ hinv.mapsItself hmade.directory hmade.identity⟩

end Fresh

/-! ## 2. What the headers map -/

/-- The number of pages of a header's call. -/
def phdrPages (file : ElfFile) (phdr : Phdr) : Nat :=
  (phdrPhysEnd file phdr - phdrPhys file phdr) / 4096

/-- How far page `q` lies behind the header's first page, around the end of the address space. -/
def phdrOffset (phdr : Phdr) (q : Nat) : Nat := (q + 1048576 - phdrVirt phdr / 4096) % 1048576

/-- **The header maps page `q`.** -/
def phdrMaps (file : ElfFile) (phdr : Phdr) (q : Nat) : Prop :=
  phdrOffset phdr q < phdrPages file phdr

instance (file : ElfFile) (phdr : Phdr) (q : Nat) : Decidable (phdrMaps file phdr q) :=
  inferInstanceAs (Decidable (_ < _))

/-- The entry it gives that page. -/
def phdrEntry (file : ElfFile) (phdr : Phdr) (q : Nat) : Nat :=
  (phdrPhys file phdr + phdrOffset phdr q * 4096) ||| phdrFlags phdr

/-- The last of the headers that maps page `q`. -/
def lastMapper (file : ElfFile) (q : Nat) : List Phdr → Option Phdr
  | [] => none
  | phdr :: phdrs => (lastMapper file q phdrs).or (if phdrMaps file phdr q then some phdr else none)

/-- The headers, as the loop of `process_map_elf` reads them. -/
def mapElfHeadersLoop (chunk : Nat) (file : ElfFile) (phdrs : Nat) :
    (fuel i : Nat) → Mem → List Phdr
  | 0, _, _ => []
  | fuel + 1, i, m =>
    if i < ePhnum m (elfHeader file) then
      let phdr := phdrAt m (u32 ((phdrs + 32 * i : Nat) : Int))
      match mapPhdr m chunk file phdr with
      | (res, m) =>
        if res < 0 then [phdr] else phdr :: mapElfHeadersLoop chunk file phdrs fuel (i + 1) m
    else []

def mapElfHeaders (m : Mem) (chunk : Nat) (file : ElfFile) : List Phdr :=
  mapElfHeadersLoop chunk file (elfPheader m (elfHeader file)) 65536 0 m

/-- The entries behind the headers. -/
def headersEntry (file : ElfFile) (phdrs : List Phdr) (q : Nat) : Option Nat :=
  (lastMapper file q phdrs).map fun phdr => phdrEntry file phdr q

theorem headersEntry_nil (file : ElfFile) (q : Nat) : headersEntry file [] q = none := rfl

theorem headersEntry_cons (file : ElfFile) (phdr : Phdr) (phdrs : List Phdr) (q : Nat) :
    headersEntry file (phdr :: phdrs) q = (headersEntry file phdrs q).or
      (if phdrMaps file phdr q then some (phdrEntry file phdr q) else none) := by
  unfold headersEntry
  rw [lastMapper]
  cases lastMapper file q phdrs with
  | some last => rfl
  | none =>
    by_cases h : phdrMaps file phdr q
    · rw [if_pos h, if_pos h]
      rfl
    · rw [if_neg h, if_neg h]
      rfl

section Mapping

variable {m : Mem} {chunk dir : Nat} {file : ElfFile} {phdr : Phdr}

theorem phdrFlags_lt (phdr : Phdr) : phdrFlags phdr < 4096 := by
  rcases phdrFlags_cases phdr with h | h <;> rw [h] <;> decide

theorem phdrVirt_lt (hv : phdr.pVaddr < 4294967296) : phdrVirt phdr < 4294967296 :=
  Nat.lt_of_le_of_lt (Nat.sub_le _ _) hv

/-- **One header's call** gives its pages their entries; one that is refused has no pages. -/
theorem mapPhdr_mapsTo (hd : DirOk m dir) (hc : ChunkOk m chunk dir)
    (hv : phdr.pVaddr < 4294967296) : MapsTo m (mapPhdr m chunk file phdr).2 dir
      fun q => if phdrMaps file phdr q then some (phdrEntry file phdr q) else none := by
  by_cases hr : MapRefused (phdrVirt phdr) (phdrPhys file phdr) (phdrPhysEnd file phdr)
  · have hno : phdrPages file phdr = 0 := by
      have := (mapRefused_phdr file phdr).mp hr
      unfold phdrPages
      rw [Nat.sub_eq_zero_of_le (Nat.le_of_lt this)]
    unfold mapPhdr
    rw [pagingMapTo_refused m chunk _ hr]
    refine (MapsTo.refl m dir).congr fun q _ => (if_neg ?_).symm
    unfold phdrMaps
    rw [hno]
    exact Nat.not_lt_zero _
  · obtain ⟨m', e, hmaps⟩ := pagingMapTo_ok (phdrFlags_lt phdr) hd hc (phdrVirt_lt hv)
      (phdrPhysEnd_lt file phdr) hr
    unfold mapPhdr
    rw [e]
    exact hmaps

/-- A chunk stays what it is where only tables were written. -/
theorem ChunkOk.mapsTo {m' : Mem} {f : Nat → Option Nat} (hc : ChunkOk m chunk dir)
    (h : MapsTo m m' dir f) : ChunkOk m' chunk dir :=
  ⟨(load32_congr fun a h1 h2 => h.frame a (hc.2 a h1 h2)).trans hc.1,
    fun a h1 h2 => (hc.2 a h1 h2).of_tables h.tables⟩

theorem processMapElfLoop_mapsTo (phdrs fuel : Nat) : ∀ (i : Nat) (res : Int) {m : Mem},
    DirOk m dir → ChunkOk m chunk dir →
      MapsTo m (processMapElfLoop chunk file phdrs fuel i res m).2 dir
        (headersEntry file (mapElfHeadersLoop chunk file phdrs fuel i m)) := by
  induction fuel with
  | zero => exact fun _ _ _ _ _ => MapsTo.refl _ _
  | succ fuel ih =>
    intro i res m hd hc
    rw [processMapElfLoop, mapElfHeadersLoop]
    by_cases hi : i < ePhnum m (elfHeader file)
    · rw [if_pos hi, if_pos hi]
      dsimp only
      generalize hphdr : phdrAt m (u32 ((phdrs + 32 * i : Nat) : Int)) = phdr
      have hv : phdr.pVaddr < 4294967296 := hphdr ▸ load32_lt _ _
      have hone : MapsTo m (mapPhdr m chunk file phdr).2 dir
          fun q => if phdrMaps file phdr q then some (phdrEntry file phdr q) else none :=
        mapPhdr_mapsTo hd hc hv
      by_cases hres : (mapPhdr m chunk file phdr).1 < 0
      · rw [if_pos hres, if_pos hres]
        refine hone.congr fun q _ => ?_
        rw [headersEntry_cons, headersEntry_nil, Option.none_or]
      · rw [if_neg hres, if_neg hres]
        exact (hone.trans (ih _ _ (hone.dirOk hd) (hc.mapsTo hone))).congr fun q _ =>
          (headersEntry_cons file phdr _ q).symm
    · rw [if_neg hi, if_neg hi]
      exact MapsTo.refl _ _

/-- **The directory behind `process_map_elf`**: the last header that maps a page has its way. -/
theorem processMapElf_mapsTo (hd : DirOk m dir) (hc : ChunkOk m chunk dir) :
    MapsTo m (processMapElf m chunk file).2 dir (headersEntry file (mapElfHeaders m chunk file)) :=
  processMapElfLoop_mapsTo (elfPheader m (elfHeader file)) 65536 0 0 hd hc

end Mapping

/-! ## 3. Kernel pages -/

/-- A page of the kernel heap. -/
def HeapPage (q : Nat) : Prop := 0x1000 ≤ q ∧ q < 0x1000 + 25600

/-- **A kernel page**: below `0x400000` lie the kernel's image, with the descriptor tables, its boot
    stack and the heap's table; the stack of interrupts has `stackPages` pages below
    `tss.esp0 = 0x600000`. -/
def KernelPage (stackPages q : Nat) : Prop :=
  q < 0x400 ∨ (0x600 - stackPages ≤ q ∧ q < 0x600) ∨ HeapPage q

/-- A byte of the header's virtual range lies in page `q`. -/
def phdrCovers (phdr : Phdr) (q : Nat) : Prop :=
  ∃ i, i < phdr.pMemsz ∧ u32 ((phdr.pVaddr + i : Nat) : Int) / 4096 = q

/-- **A page that a file may change**: from `PEACHOS_PROGRAM_VIRTUAL_ADDRESS` on, covered by a
    `PT_LOAD` header, and outside the heap. -/
def UserPage (phdrs : List Phdr) (q : Nat) : Prop :=
  0x400 ≤ q ∧ (∃ phdr ∈ phdrs, phdr.pType = ptLoad ∧ phdrCovers phdr q) ∧ ¬ HeapPage q

/-- **The kernel is kept**: only user pages change, and every kernel page is mapped to itself. -/
structure KernelKept (m m' : Mem) (dir stackPages : Nat) (phdrs : List Phdr) : Prop where
  changed : ∀ q, q < 1048576 → pte m' dir q ≠ pte m dir q → UserPage phdrs q
  kernel : ∀ q, KernelPage stackPages q → pte m' dir q &&& 0xFFFFF000 = q * 4096

/-- The header maps its pages to themselves: `p_vaddr` and `elf_memory + p_offset` lie in one
    page. -/
def SamePage (file : ElfFile) (phdr : Phdr) : Prop := phdrPhys file phdr = phdrVirt phdr

/-- **A header does no harm at a page that it maps**: it maps the page to itself and does not ask
    for `PF_W`, or it is a user page, and stays what it is where the kernel has its stack there. -/
def HarmlessAt (file : ElfFile) (phdrs : List Phdr) (stackPages q : Nat) (phdr : Phdr) : Prop :=
  (SamePage file phdr ∧ phdr.pFlags &&& pfW = 0) ∨
  (UserPage phdrs q ∧ (KernelPage stackPages q → SamePage file phdr))

/-- ... and so does the last header of every page. -/
def Harmless (file : ElfFile) (phdrs : List Phdr) (stackPages : Nat) : Prop :=
  ∀ q, q < 1048576 → ∀ phdr, lastMapper file q phdrs = some phdr →
    HarmlessAt file phdrs stackPages q phdr

theorem kernelPage_lt {stackPages q : Nat} (h : KernelPage stackPages q) : q < 1048576 := by
  unfold KernelPage HeapPage at h
  omega

theorem lastMapper_mem {file : ElfFile} {q : Nat} {phdr : Phdr} : ∀ {phdrs : List Phdr},
    lastMapper file q phdrs = some phdr → phdr ∈ phdrs ∧ phdrMaps file phdr q
  | [], h => by cases h
  | first :: phdrs, h => by
    rw [lastMapper, Option.or_eq_some_iff] at h
    rcases h with h | ⟨-, h⟩
    · obtain ⟨hmem, hmaps⟩ := lastMapper_mem h
      exact ⟨List.mem_cons_of_mem _ hmem, hmaps⟩
    · rw [Option.ite_none_right_eq_some] at h
      obtain ⟨hmaps, h⟩ := h
      obtain rfl := Option.some.inj h
      exact ⟨List.mem_cons_self, hmaps⟩

/-- The headers come from memory. -/
theorem mapElfHeadersLoop_at (chunk : Nat) (file : ElfFile) (phdrs fuel : Nat) :
    ∀ {i : Nat} {m : Mem} {phdr : Phdr}, phdr ∈ mapElfHeadersLoop chunk file phdrs fuel i m →
      ∃ m' a, phdr = phdrAt m' a := by
  induction fuel with
  | zero =>
    intro i m phdr h
    cases h
  | succ fuel ih =>
    intro i m phdr h
    rw [mapElfHeadersLoop] at h
    split at h
    · dsimp only at h
      split at h
      · exact ⟨_, _, List.mem_singleton.mp h⟩
      · rcases List.mem_cons.mp h with h | h
        · exact ⟨_, _, h⟩
        · exact ih h
    · cases h

section Entry

variable {file : ElfFile} {phdr : Phdr} {q : Nat}

/-- The page named for a page that is mapped. -/
theorem phdrEntry_lt (h : phdrMaps file phdr q) :
    phdrPhys file phdr + phdrOffset phdr q * 4096 < 4294967296 := by
  have hlt := phdrPhysEnd_lt file phdr
  unfold phdrMaps phdrPages at h
  omega

theorem phdrEntry_page (h : phdrMaps file phdr q) : phdrEntry file phdr q &&& 0xFFFFF000 =
    phdrPhys file phdr + phdrOffset phdr q * 4096 := by
  have hal := phdrPhys_aligned file phdr
  exact entry_page (by omega) (phdrFlags_lt phdr) (phdrEntry_lt h)

/-- **A page is mapped to itself** exactly when all pages of the header are. -/
theorem phdrEntry_self (hv : phdr.pVaddr < 4294967296) (hq : q < 1048576)
    (h : phdrMaps file phdr q) :
    phdrPhys file phdr + phdrOffset phdr q * 4096 = q * 4096 ↔ SamePage file phdr := by
  have hal := phdrPhys_aligned file phdr
  have hlt := phdrEntry_lt h
  have hva : phdrVirt phdr % 4096 = 0 := by
    unfold phdrVirt pagingAlignToLowerPage
    omega
  have hvl := phdrVirt_lt hv
  unfold SamePage
  unfold phdrOffset at hlt ⊢
  omega

theorem phdrFlags_readOnly (phdr : Phdr) :
    phdrFlags phdr = pagingIsPresent ||| pagingAccessFromAll ↔ phdr.pFlags &&& pfW = 0 := by
  unfold phdrFlags
  split
  · rename_i h
    exact ⟨fun e => absurd e (by decide), fun e => absurd e h⟩
  · rename_i h
    exact ⟨fun _ => not_not.mp h, fun _ => rfl⟩

/-- The entry is that of a new directory exactly where the header changes nothing. -/
theorem phdrEntry_eq_iff (hv : phdr.pVaddr < 4294967296) (hq : q < 1048576)
    (h : phdrMaps file phdr q) :
    phdrEntry file phdr q = (q * 4096) ||| (pagingIsPresent ||| pagingAccessFromAll) ↔
      SamePage file phdr ∧ phdr.pFlags &&& pfW = 0 := by
  have hal := phdrPhys_aligned file phdr
  have hfl := phdrFlags_lt phdr
  have hf : pagingIsPresent ||| pagingAccessFromAll < 4096 := by decide
  rw [← phdrEntry_self hv hq h, ← phdrFlags_readOnly phdr]
  unfold phdrEntry
  rw [or_flags (by omega) hfl, or_flags (by omega) hf]
  constructor
  · intro e
    constructor <;> omega
  · rintro ⟨e1, e2⟩
    rw [e1, e2]

end Entry

/-! ## 4. Exactly when -/

section Kept

variable {m : Mem} {chunk dir : Nat} {file : ElfFile}

/-- A page that no header maps. -/
theorem kept_unmapped {q : Nat} (h : MapsItself m chunk dir) (hq : q < 1048576)
    (hn : lastMapper file q (mapElfHeaders m chunk file) = none) :
    pte (processMapElf m chunk file).2 dir q = pte m dir q := by
  rw [(processMapElf_mapsTo h.dirOk h.chunkOk).entry q hq, headersEntry, hn, Option.map_none,
    Option.getD_none]

/-- A page with a last header. -/
theorem kept_mapped {q : Nat} {phdr : Phdr} (h : MapsItself m chunk dir) (hq : q < 1048576)
    (hl : lastMapper file q (mapElfHeaders m chunk file) = some phdr) :
    pte (processMapElf m chunk file).2 dir q = phdrEntry file phdr q := by
  rw [(processMapElf_mapsTo h.dirOk h.chunkOk).entry q hq, headersEntry, hl, Option.map_some,
    Option.getD_some]

theorem mapElfHeaders_vaddr {phdr : Phdr} (h : phdr ∈ mapElfHeaders m chunk file) :
    phdr.pVaddr < 4294967296 := by
  obtain ⟨m', a, rfl⟩ := mapElfHeadersLoop_at _ _ _ _ h
  exact load32_lt _ _

/-- **One page**: what it must be like, and what its last header must be like. -/
theorem kept_page_iff {q stackPages : Nat} {phdr : Phdr} (h : MapsItself m chunk dir)
    (hq : q < 1048576) (hl : lastMapper file q (mapElfHeaders m chunk file) = some phdr) :
    ((pte (processMapElf m chunk file).2 dir q ≠ pte m dir q →
        UserPage (mapElfHeaders m chunk file) q) ∧
      (KernelPage stackPages q →
        pte (processMapElf m chunk file).2 dir q &&& 0xFFFFF000 = q * 4096)) ↔
    HarmlessAt file (mapElfHeaders m chunk file) stackPages q phdr := by
  obtain ⟨hmem, hmaps⟩ := lastMapper_mem hl
  have hv := mapElfHeaders_vaddr hmem
  rw [kept_mapped h hq hl, h.entry q hq, phdrEntry_page hmaps, phdrEntry_self hv hq hmaps, ne_eq,
    phdrEntry_eq_iff hv hq hmaps]
  unfold HarmlessAt
  constructor
  · rintro ⟨hchanged, hkernel⟩
    by_cases hsame : SamePage file phdr ∧ phdr.pFlags &&& pfW = 0
    · exact Or.inl hsame
    · exact Or.inr ⟨hchanged hsame, hkernel⟩
  · rintro (hsame | ⟨huser, hkernel⟩)
    · exact ⟨fun hne => absurd hsame hne, fun _ => hsame.1⟩
    · exact ⟨fun _ => huser, hkernel⟩

theorem kernelKept_iff (h : MapsItself m chunk dir) (file : ElfFile) (stackPages : Nat) :
    KernelKept m (processMapElf m chunk file).2 dir stackPages (mapElfHeaders m chunk file) ↔
      Harmless file (mapElfHeaders m chunk file) stackPages := by
  constructor
  · intro hkept q hq phdr hl
    exact (kept_page_iff h hq hl).mp ⟨hkept.changed q hq, hkept.kernel q⟩
  · intro hharm
    constructor
    · intro q hq hne
      cases hl : lastMapper file q (mapElfHeaders m chunk file) with
      | none => exact absurd (kept_unmapped h hq hl) hne
      | some phdr => exact ((kept_page_iff h hq hl).mpr (hharm q hq phdr hl)).1 hne
    · intro q hkernel
      have hq := kernelPage_lt hkernel
      cases hl : lastMapper file q (mapElfHeaders m chunk file) with
      | none =>
        rw [kept_unmapped h hq hl, h.entry q hq]
        exact entry_page (Nat.mul_mod_left q 4096) (by decide) (by omega)
      | some phdr => exact ((kept_page_iff h hq hl).mpr (hharm q hq phdr hl)).2 hkernel

/-- The program headers of the file, as it was loaded. -/
def fileHeaders (m : Mem) (file : ElfFile) : List Phdr :=
  (List.range' 0 (ePhnum m (elfHeader file))).map (phdrNo m file)

/-- With the header table outside the page tables the loop reads the file's own headers: induction
    on those still to come. -/
theorem mapElfHeadersLoop_file (hd : DirOk m dir) (hc : ChunkOk m chunk dir)
    (ho : HeadersOutside m dir file) (fuel : Nat) :
    ∀ (i : Nat) (res : Int) {m' : Mem}, AgreeOutside m m' dir → i + fuel = 65536 →
      0 ≤ (processMapElfLoop chunk file (elfPheader m (elfHeader file)) fuel i res m').1 →
      mapElfHeadersLoop chunk file (elfPheader m (elfHeader file)) fuel i m' =
        (List.range' i (ePhnum m (elfHeader file) - i)).map (phdrNo m file) := by
  have hnum : ePhnum m (elfHeader file) < 65536 := load16_lt ..
  induction fuel with
  | zero =>
    intro i res m' _ hi _
    rw [Nat.sub_eq_zero_of_le (by omega)]
    rfl
  | succ fuel ih =>
    intro i res m' ha hi hres
    rw [processMapElfLoop] at hres
    rw [mapElfHeadersLoop]
    rw [ho.ePhnum ha] at hres ⊢
    by_cases hlt : i < ePhnum m (elfHeader file)
    · rw [if_pos hlt, ho.phdr ha hlt] at hres ⊢
      dsimp only at hres ⊢
      by_cases hneg : (mapPhdr m' chunk file (phdrNo m file i)).1 < 0
      · rw [if_pos hneg] at hres
        exact absurd hneg (Int.not_lt.mpr hres)
      · rw [if_neg hneg] at hres ⊢
        have hleft : ePhnum m (elfHeader file) - i = (ePhnum m (elfHeader file) - (i + 1)) + 1 := by
          omega
        rw [hleft, List.range'_succ, List.map_cons,
          ih (i + 1) _ (ha.mapPhdr hd hc (load32_lt ..)) (by omega) hres]
    · rw [if_neg hlt, Nat.sub_eq_zero_of_le (Nat.le_of_not_lt hlt)]
      rfl

/-- **The kernel is kept exactly when the last header of every page does no harm there.** With the
    header table outside the page tables, and the file mapped, these are the headers of the file as
    it was loaded. -/
theorem mapElf_kept_iff (h : MapsItself m chunk dir) (file : ElfFile) (stackPages : Nat) :
    (KernelKept m (processMapElf m chunk file).2 dir stackPages (mapElfHeaders m chunk file) ↔
      Harmless file (mapElfHeaders m chunk file) stackPages) ∧
    (HeadersOutside m dir file → 0 ≤ (processMapElf m chunk file).1 →
      (KernelKept m (processMapElf m chunk file).2 dir stackPages (fileHeaders m file) ↔
        Harmless file (fileHeaders m file) stackPages)) := by
  refine ⟨kernelKept_iff h file stackPages, fun ho hres => ?_⟩
  have e : mapElfHeaders m chunk file = fileHeaders m file := by
    have hloop := mapElfHeadersLoop_file h.dirOk h.chunkOk ho 65536 0 0
      ⟨fun _ _ => rfl, fun _ _ => rfl⟩ (Nat.zero_add _) hres
    rw [Nat.sub_zero] at hloop
    exact hloop
  rw [← e]
  exact kernelKept_iff h file stackPages

end Kept

/-! ## 5. Segments of user programs -/

/-- **A segment as a linker makes it**, below `limit`. -/
structure Segment (limit : Nat) (file : ElfFile) (phdr : Phdr) : Prop where
  load : phdr.pType = ptLoad
  pos : 0 < phdr.pMemsz
  low : 0x400000 ≤ phdr.pVaddr
  high : phdr.pVaddr + phdr.pMemsz ≤ limit
  offset : elfPhdrPhysAddress file phdr % 4096 = phdr.pVaddr % 4096

theorem pagingAlignAddress_lt (ptr : Nat) : pagingAlignAddress ptr < ptr + 4096 := by
  unfold pagingAlignAddress
  split
  · unfold u32
    omega
  · omega

/-- A page that is mapped begins before the segment's bytes end. -/
theorem phdrPages_bytes {file : ElfFile} {phdr : Phdr} {j : Nat} (hj : j < phdrPages file phdr) :
    j * 4096 < elfPhdrPhysAddress file phdr % 4096 + phdr.pMemsz := by
  have hend := pagingAlignAddress_lt
    (u32 ((elfPhdrPhysAddress file phdr + phdr.pMemsz : Nat) : Int))
  have hsum : u32 ((elfPhdrPhysAddress file phdr + phdr.pMemsz : Nat) : Int) ≤
      elfPhdrPhysAddress file phdr + phdr.pMemsz := by
    unfold u32
    omega
  unfold phdrPages phdrPhys phdrPhysEnd pagingAlignToLowerPage at hj
  omega

/-- Page `q`, the `j`-th of a range of bytes, holds the range's byte `q * 4096 - vaddr`. -/
theorem page_byte {vaddr memsz q j : Nat} (hpos : 0 < memsz) (hj : j * 4096 < vaddr % 4096 + memsz)
    (hq : q * 4096 = vaddr - vaddr % 4096 + j * 4096) :
    q * 4096 - vaddr < memsz ∧ (vaddr + (q * 4096 - vaddr)) / 4096 = q ∧ vaddr / 4096 ≤ q ∧
      q * 4096 < vaddr + memsz := by
  omega

/-- The page is counted from the header's first one, which lies before it. -/
theorem phdrOffset_page (phdr : Phdr) {q : Nat} (hq : q < 1048576)
    (h : phdr.pVaddr - phdr.pVaddr % 4096 + phdrOffset phdr q * 4096 < 4294967296) :
    q * 4096 = phdr.pVaddr - phdr.pVaddr % 4096 + phdrOffset phdr q * 4096 := by
  unfold phdrOffset phdrVirt pagingAlignToLowerPage at h ⊢
  omega

/-- **The pages that a segment maps are pages that it covers.** -/
theorem Segment.covers {limit : Nat} {file : ElfFile} {phdr : Phdr} {q : Nat}
    (h : Segment limit file phdr) (hl : limit ≤ 4294967296) (hq : q < 1048576)
    (hm : phdrMaps file phdr q) : phdrCovers phdr q ∧ 0x400 ≤ q ∧ q * 4096 < limit := by
  have hbytes := phdrPages_bytes hm
  rw [h.offset] at hbytes
  have hlow := h.low
  have hhigh := h.high
  have hpage := phdrOffset_page phdr hq (by omega)
  obtain ⟨hbyte, hin, hfirst, hend⟩ := page_byte h.pos hbytes hpage
  refine ⟨⟨q * 4096 - phdr.pVaddr, hbyte, ?_⟩, Nat.le_trans ?_ hfirst,
    Nat.lt_of_lt_of_le hend hhigh⟩
  · rw [u32_natCast_of_lt (by omega), hin]
  · exact (Nat.le_div_iff_mul_le (by decide)).mpr hlow

/-- **Segments below the kernel's stack do no harm.** -/
theorem harmless_segments {file : ElfFile} {phdrs : List Phdr} {stackPages : Nat}
    (h : ∀ phdr ∈ phdrs, Segment (0x600000 - stackPages * 4096) file phdr) :
    Harmless file phdrs stackPages := by
  intro q hq phdr hl
  obtain ⟨hmem, hmaps⟩ := lastMapper_mem hl
  obtain ⟨hcov, hlow, hhigh⟩ := (h phdr hmem).covers (by omega) hq hmaps
  have hheap : ¬ HeapPage q := by
    unfold HeapPage
    omega
  refine Or.inr ⟨⟨hlow, ⟨phdr, hmem, (h phdr hmem).load, hcov⟩, hheap⟩, fun hkernel => ?_⟩
  rcases hkernel with hlt | ⟨h1, h2⟩ | hh
  · omega
  · omega
  · exact absurd hh hheap

/-! ## 6. A user program, and a file that replaces the kernel's first page -/

/-- A change of memory inside the heap leaves the directory of `identityMem`. -/
theorem identityMem_mapsItself {m : Mem}
    (h : ∀ a, a < 4294967296 → a < 0x01000000 ∨ 0x08000000 ≤ a → m a = identityMem a) :
    MapsItself m 0x00200000 0x00100000 := by
  have htable : ∀ i, i < 1024 → tableOf m 0x00100000 i = tableOf identityMem 0x00100000 i := by
    intro i hi
    unfold tableOf
    rw [load32_congr fun b h1 h2 => h b (by omega) (by omega)]
  refine ⟨identityMem_dirOk.of_tables htable, ⟨?_, fun a h1 h2 => ?_⟩, fun q hq => ?_⟩
  · rw [load32_congr fun b h1 h2 => h b (by omega) (by omega)]
    exact identityMem_chunkOk.1
  · exact (identityMem_chunkOk.2 a h1 h2).of_tables htable
  · have hi : q / 1024 < 1024 := Nat.div_lt_of_lt_mul hq
    have hpte := identityMem_pte hq
    unfold pte at hpte ⊢
    rw [htable _ hi, identityMem_tableOf hi,
      load32_congr fun b h1 h2 => h b (by omega) (by omega), ← identityMem_tableOf hi, hpte,
      or_flags (Nat.mul_mod_left q 4096) (by decide)]
    rfl

/-- ... and its page tables lie behind the heap. -/
theorem identityMem_outside {m : Mem}
    (h : ∀ a, a < 4294967296 → a < 0x01000000 ∨ 0x08000000 ≤ a → m a = identityMem a) {a : Nat}
    (ha : a < 0x08000000) : OutsideTables m 0x00100000 a := by
  intro i hi
  have htable := identityMem_tableOf hi
  unfold tableOf at htable ⊢
  rw [load32_congr fun b h1 h2 => h b (by omega) (by omega), htable]
  omega

theorem plainMem_mapsItself : MapsItself plainMem 0x00200000 0x00100000 :=
  identityMem_mapsItself fun a ha h => plainMem_other ha (by omega)

/-- **A file with one segment at `0x400000`** leaves the kernel alone, with a stack of a
    megabyte. -/
theorem mapElf_kept_iff_plain :
    KernelKept plainMem (processMapElf plainMem 0x00200000 plainElf).2 0x00100000 256
      (mapElfHeaders plainMem 0x00200000 plainElf) := by
  have hphdrs : mapElfHeaders plainMem 0x00200000 plainElf = [⟨1, 0, 0x400000, 84, 84, 6⟩] := by
    decide +kernel
  refine ((mapElf_kept_iff plainMem_mapsItself plainElf 256).1).mpr (harmless_segments ?_)
  intro phdr hmem
  rw [hphdrs] at hmem
  rw [List.mem_singleton.mp hmem]
  exact ⟨rfl, by decide, by decide, by decide, by decide +kernel⟩

/-- `plainFile` with `p_vaddr = 0x100000`, where the kernel is. -/
def lowFile : List UInt8 := plainFile.set 62 0x10

/-- `lowFile` on a disk that delivers it in full. -/
def lowOutcome : FileOutcome := ⟨1, 0, 84, 1, lowFile⟩

def lowElf : ElfFile := ⟨0x01000000, 0x01001000, 0x00100000, 0x00100054, 0x01001000, 0x01001054⟩

/-- A block of an allocation that the kernel's heap represents lies below the page tables. -/
theorem HeapInv.kernel_block {heap : Heap} {live : List Allocation} (h : HeapInv heap live)
    (hs : heap.saddr = 0x01000000) (ht : heap.table.total = 25600) {x : Allocation} (hx : x ∈ live)
    (h1 : blocksFor x.size = 1) : 0x01000000 ≤ x.ptr ∧ x.ptr + 4096 ≤ 0x08000000 := by
  have haddr := h.addr x hx
  have hin := h.inside hx
  rw [show (x.extent heap.saddr).len = 1 from h1, ht] at hin
  rw [hs] at haddr hin
  omega

/-- Loading a file of at most a page writes into the heap only. -/
theorem bssKernel_load_mem {f : FileOutcome} (hopen : ¬ f.fopen ≤ 0) (hstat : ¬ f.fstat < 0)
    (h1 : 1 ≤ f.filesize) (h2 : f.filesize ≤ 4096) (hl : f.bytes.length ≤ 4096) {a : Nat}
    (ha : a < 4294967296) (h : a < 0x01000000 ∨ 0x08000000 ≤ a) :
    (elfLoad bssKernel f).2.2.mem a = identityMem a := by
  have hfree : freeBlocks bssKernel.heap = 25600 := kernelHeap_freeBlocks _
  obtain ⟨address, k₁, e₁, hg₁, -⟩ :=
    kzalloc_grows (k := bssKernel) (HeapInv.nil (kernelHeap_placed _))
    (by rw [hfree]; decide) 132 (by decide) (by decide)
  have hfree₁ : freeBlocks k₁.heap + 1 = freeBlocks bssKernel.heap := hg₁.free
  obtain ⟨elfMemory, k₂, e₂, hg₂, -⟩ := kzalloc_grows hg₁.inv (by omega) f.filesize h1 h2
  have hone : blocksFor 132 = 1 := by decide
  have hb₁ := hg₁.inv.kernel_block hg₁.saddr hg₁.total List.mem_cons_self hone
  have hb₂ := hg₂.inv.kernel_block (hg₂.saddr.trans hg₁.saddr) (hg₂.total.trans hg₁.total)
    List.mem_cons_self (blocksFor_one h1 h2)
  dsimp only at hb₁ hb₂
  rw [elfLoad_mem bssKernel hopen hstat, e₁]
  dsimp only
  rw [e₂, copyIn_other ha (show elfMemory + f.bytes.length ≤ 4294967296 by omega)
    (show a < elfMemory ∨ elfMemory + f.bytes.length ≤ a by omega), hg₂.mem a ha fun x hx => ?_,
    hg₁.mem a ha fun x hx => ?_]
  · rfl
  · rw [List.mem_singleton.mp hx]
    show a < address ∨ address + 4096 ≤ a
    omega
  · rw [List.mem_singleton.mp hx]
    show a < elfMemory ∨ elfMemory + 4096 ≤ a
    omega

/-- **`lowFile` is accepted and mapped, and the kernel's first page is a page of the file.** -/
theorem mapElf_replaces_kernel : ¬ ∀ (k : Kernel) (f : FileOutcome) (file : ElfFile)
    (chunk dir stackPages : Nat), (elfLoad k f).1 = 0 → (elfLoad k f).2.1 = some file →
    MapsItself (elfLoad k f).2.2.mem chunk dir →
    0 ≤ (processMapElf (elfLoad k f).2.2.mem chunk file).1 →
    KernelKept (elfLoad k f).2.2.mem (processMapElf (elfLoad k f).2.2.mem chunk file).2 dir
      stackPages (mapElfHeaders (elfLoad k f).2.2.mem chunk file) := by
  intro h
  have h0 : (elfLoad bssKernel lowOutcome).1 = 0 := by decide +kernel
  have h1 : (elfLoad bssKernel lowOutcome).2.1 = some lowElf := by decide +kernel
  have hres : 0 ≤ (processMapElf (elfLoad bssKernel lowOutcome).2.2.mem 0x00200000 lowElf).1 := by
    decide +kernel
  have hitself : MapsItself (elfLoad bssKernel lowOutcome).2.2.mem 0x00200000 0x00100000 :=
    identityMem_mapsItself fun a ha hoff =>
      bssKernel_load_mem (by decide) (by decide) (by decide) (by decide) (by decide) ha hoff
  have hkept := h bssKernel lowOutcome lowElf 0x00200000 0x00100000 1 h0 h1 hitself hres
  have hphdrs : mapElfHeaders (elfLoad bssKernel lowOutcome).2.2.mem 0x00200000 lowElf =
      [⟨1, 0, 0x100000, 84, 84, 6⟩] := by
    decide +kernel
  have hlast : lastMapper lowElf 0x100
      (mapElfHeaders (elfLoad bssKernel lowOutcome).2.2.mem 0x00200000 lowElf) =
        some ⟨1, 0, 0x100000, 84, 84, 6⟩ := by
    rw [hphdrs]
    decide +kernel
  have hself := hkept.kernel 0x100 (Or.inl (by decide))
  rw [kept_mapped hitself (by decide) hlast] at hself
  exact absurd hself (by decide +kernel)

end PeachKernel
