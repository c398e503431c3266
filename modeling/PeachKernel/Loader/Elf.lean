/-
  File:      PeachKernel/Loader/Elf.lean
  Subject:   The ELF loader `loader/formats/elfloader.c`: a file in memory, its header and program
             headers, and the checks and bookkeeping of `elf_load`.

  The loader reads every field where it lies in memory, through pointers it computes from the file's
  own offsets; nothing is copied out and no offset is compared with the size of the file. The model
  does the same: a header is an address, a field is a load.

  * `Phdr`, `phdrAt` -- a program header, as it stands at an address;
  * `elfValidateLoaded`, `elfProcessPheaders` -- the checks, and the range bookkeeping;
  * `FileOutcome` -- what the file system answers for the file (`fopen`, `fstat`, `fread`);
  * `elfLoad`, `elfClose` -- allocation, reading, checking; release.
-/
import PeachKernel.Heap.Kheap
import PeachKernel.Status

namespace PeachKernel

open CInt Mem

/-! ## 1. Headers in memory -/

/-- `PT_LOAD`. -/
def ptLoad : Nat := 1

/-- `PF_W`. -/
def pfW : Nat := 0x02

/-- `struct elf32_phdr`, without the fields nothing reads; `p_offset` is a signed word. -/
structure Phdr where
  pType : Nat
  pOffset : Int
  pVaddr : Nat
  pFilesz : Nat
  pMemsz : Nat
  pFlags : Nat
  deriving DecidableEq

/-- The program header at an address. -/
def phdrAt (m : Mem) (a : Nat) : Phdr where
  pType := load32 m a
  pOffset := i32 (load32 m (a + 4))
  pVaddr := load32 m (a + 8)
  pFilesz := load32 m (a + 16)
  pMemsz := load32 m (a + 20)
  pFlags := load32 m (a + 24)

/-- `header->e_phoff`, a signed word. -/
def ePhoff (m : Mem) (header : Nat) : Int := i32 (load32 m (header + 28))

/-- `header->e_phnum`. -/
def ePhnum (m : Mem) (header : Nat) : Nat := load16 m (header + 44)

/-- `struct elf_file`: its own address, the address of the file, and the ranges. -/
structure ElfFile where
  address : Nat
  elfMemory : Nat
  virtualBaseAddress : Nat
  virtualEndAddress : Nat
  physicalBaseAddress : Nat
  physicalEndAddress : Nat
  deriving DecidableEq

/-- `elf_header`: the header is at the start of the file. -/
def elfHeader (file : ElfFile) : Nat := file.elfMemory

def elfPheader (m : Mem) (header : Nat) : Nat :=
  if ePhoff m header = 0 then 0 else u32 (header + ePhoff m header)

/-- `elf_program_header`: the address of program header `index` (32 bytes each). -/
def elfProgramHeader (m : Mem) (header index : Nat) : Nat :=
  u32 (elfPheader m header + 32 * index)

def elfPhdrPhysAddress (file : ElfFile) (phdr : Phdr) : Nat := u32 (file.elfMemory + phdr.pOffset)

/-! ## 2. Checks -/

def elfValidSignature (m : Mem) (buffer : Nat) : Bool :=
  m buffer == 0x7f && m (buffer + 1) == 0x45 && m (buffer + 2) == 0x4c && m (buffer + 3) == 0x46

/-- `ELFCLASSNONE` or `ELFCLASS32`. -/
def elfValidClass (m : Mem) (header : Nat) : Bool := m (header + 4) == 0 || m (header + 4) == 1

/-- `ELFDATANONE` or `ELFDATA2LSB`. -/
def elfValidEncoding (m : Mem) (header : Nat) : Bool := m (header + 5) == 0 || m (header + 5) == 1

def elfHasProgramHeader (m : Mem) (header : Nat) : Bool := ePhoff m header != 0

def elfValidateLoaded (m : Mem) (header : Nat) : Int :=
  if elfValidSignature m header && elfValidClass m header && elfValidEncoding m header &&
    elfHasProgramHeader m header then 0 else -EINFORMAT

/-! ## 3. Ranges -/

def elfProcessPhdrPtLoad (file : ElfFile) (phdr : Phdr) : Int × ElfFile :=
  let file :=
    if file.virtualBaseAddress ≥ phdr.pVaddr ∨ file.virtualBaseAddress = 0x00 then
      { file with
        virtualBaseAddress := phdr.pVaddr
        physicalBaseAddress := u32 (file.elfMemory + phdr.pOffset) }
    else file
  let endVirtualAddress := u32 ((phdr.pVaddr + phdr.pFilesz : Nat) : Int)
  let file :=
    if file.virtualEndAddress ≤ endVirtualAddress ∨ file.virtualEndAddress = 0x00 then
      { file with
        virtualEndAddress := endVirtualAddress
        physicalEndAddress := u32 (file.elfMemory + phdr.pOffset + phdr.pFilesz) }
    else file
  (0, file)

def elfProcessPheader (file : ElfFile) (phdr : Phdr) : Int × ElfFile :=
  if phdr.pType = ptLoad then elfProcessPhdrPtLoad file phdr else (0, file)

/-- The loop of `elf_process_pheaders`, `left` headers still to process, from header `i`. -/
def elfProcessPheadersLoop (m : Mem) (header : Nat) : (left i : Nat) → Int → ElfFile → Int × ElfFile
  | 0, _, res, file => (res, file)
  | left + 1, i, _, file =>
    match elfProcessPheader file (phdrAt m (elfProgramHeader m header i)) with
    | (res, file) =>
      if res < 0 then (res, file) else elfProcessPheadersLoop m header left (i + 1) res file

def elfProcessPheaders (m : Mem) (file : ElfFile) : Int × ElfFile :=
  elfProcessPheadersLoop m (elfHeader file) (ePhnum m (elfHeader file)) 0 0 file

def elfProcessLoaded (m : Mem) (file : ElfFile) : Int × ElfFile :=
  let res := elfValidateLoaded m (elfHeader file)
  if res < 0 then (res, file) else elfProcessPheaders m file

/-! ## 4. Loading -/

/-- What the file system answers for a file: the descriptor of `fopen`, the status and size of
    `fstat`, the status of `fread` and the bytes it stored. -/
structure FileOutcome where
  fopen : Int
  fstat : Int
  filesize : Nat
  fread : Int
  bytes : List UInt8

/-- `elf_load`: the status, the file on success, and the kernel after the call. A structure of
    `sizeof(struct elf_file)` bytes is allocated, then the file; neither answer is checked. -/
def elfLoad (k : Kernel) (f : FileOutcome) : Int × Option ElfFile × Kernel :=
  match kzalloc k 132 with
  | (address, k) =>
    if f.fopen ≤ 0 then (- EIO, none, k)
    else if f.fstat < 0 then (f.fstat, none, k)
    else
      match kzalloc k f.filesize with
      | (elfMemory, k) =>
        let k := { k with mem := copyIn k.mem elfMemory f.bytes }
        if f.fread < 0 then (f.fread, none, k)
        else
          match elfProcessLoaded k.mem ⟨address, elfMemory, 0, 0, 0, 0⟩ with
          | (res, file) => if res < 0 then (res, none, k) else (res, some file, k)

/-- Memory behind a file that could be opened: its bytes, in a block that was cleared. -/
theorem elfLoad_mem (k : Kernel) {f : FileOutcome} (hopen : ¬ f.fopen ≤ 0) (hstat : ¬ f.fstat < 0) :
    (elfLoad k f).2.2.mem = copyIn (kzalloc (kzalloc k 132).2 f.filesize).2.mem
      (kzalloc (kzalloc k 132).2 f.filesize).1 f.bytes := by
  unfold elfLoad
  dsimp only
  rw [if_neg hopen, if_neg hstat]
  split
  · rfl
  · split
    · rfl
    · rfl

/-- A file that was read is answered by the checks. -/
theorem elfLoad_read (k : Kernel) {f : FileOutcome} (hopen : ¬ f.fopen ≤ 0) (hstat : ¬ f.fstat < 0)
    (hread : ¬ f.fread < 0) :
    elfLoad k f =
      let k₂ := (kzalloc (kzalloc k 132).2 f.filesize).2
      let elfMemory := (kzalloc (kzalloc k 132).2 f.filesize).1
      let k₃ : Kernel := { k₂ with mem := copyIn k₂.mem elfMemory f.bytes }
      let r := elfProcessLoaded k₃.mem ⟨(kzalloc k 132).1, elfMemory, 0, 0, 0, 0⟩
      if r.1 < 0 then (r.1, none, k₃) else (r.1, some r.2, k₃) := by
  unfold elfLoad
  dsimp only
  rw [if_neg hopen, if_neg hstat, if_neg hread]

/-- `elf_close` of a file that was loaded. -/
def elfClose (k : Kernel) (file : ElfFile) : Kernel := kfree (kfree k file.elfMemory) file.address

end PeachKernel
