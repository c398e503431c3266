/-
  File:      PeachKernel/Process/Load.lean
  Subject:   Loading a program: `process_load` of `task/process.c`, over the file layer, the heap,
             the page directories and the task list.

  The process structure is a value that knows the address of its block. Beside what the source
  keeps, it has the addresses that `kzalloc` answered for it (`blocks`), which no function reads.

  * `elfLoadFrom` -- `elf_load` with the file layer in the loop (`FileOutcome` stands for it in
    `elfLoad`);
  * `processLoadBinary`, `processLoadData`, `processMapMemory` -- the parts of a load;
  * `processLoadForSlot`, `processLoad` -- the source functions;
  * `LoadWay` -- the ways through a load; `LoadWay.eq`, `processLoadForSlot_way` -- these, and no
    others;
  * `processLoad_loaded` -- a process that was loaded has its structure, its stack, and a task whose
    blocks are all granted, or a task pointer that is an error code.
-/
import PeachKernel.Fs.File
import PeachKernel.Process.MapElf
import PeachKernel.Task.Blocks

namespace PeachKernel

open CInt Mem

variable {π : Type}

/-! ## 1. The program's file -/

/-- `"r"`. -/
def readMode : List UInt8 := [0x72]

/-- The bytes that a read stores at `ptr`. -/
def Files.store (s : Files π) (ptr : Nat) (out : List UInt8) : Files π :=
  { s with kernel := { s.kernel with mem := copyIn s.kernel.mem ptr out } }

/-- `stat.filesize`. -/
def statSize (stat : Option FileStat) : Nat := (stat.map FileStat.filesize).getD 0

/-- `elf_load`: the file or the error, and the state. The structure is not released on an error, nor
    is the file's memory. -/
def elfLoadFrom (s : Files π) (filename : List UInt8) :
    Option (Except Int ElfFile × Files π) :=
  match kzalloc s.kernel 132 with
  | (address, k) =>
    match fopen { s with kernel := k } filename readMode with
    | none => none
    | some (fd, s) =>
      if fd ≤ 0 then some (.error (- EIO), (fclose s 0).2)
      else
        match fstat s fd with
        | (res, stat) =>
          if res < 0 then some (.error res, (fclose s fd).2)
          else
            match kzalloc s.kernel (statSize stat) with
            | (elfMemory, k) =>
              match fread { s with kernel := k } (statSize stat) 1 fd with
              | none => none
              | some (res, out, s) =>
                let s := s.store elfMemory out
                if res < 0 then some (.error res, (fclose s fd).2)
                else
                  match elfProcessLoaded s.kernel.mem ⟨address, elfMemory, 0, 0, 0, 0⟩ with
                  | (res, file) =>
                    if res < 0 then some (.error res, (fclose s fd).2)
                    else some (.ok file, (fclose s fd).2)

/-- What a process keeps of its file: `filetype` with `elf_file`, or with `ptr` and `size`. -/
inductive ProgramData where
  | elf (file : ElfFile)
  | binary (ptr size : Nat)

/-- `process_load_binary`: the data or the error, and the state. -/
def processLoadBinary (s : Files π) (filename : List UInt8) :
    Option (Except Int ProgramData × Files π) :=
  match fopen s filename readMode with
  | none => none
  | some (fd, s) =>
    if fd = 0 then some (.error (- EIO), (fclose s fd).2)
    else
      match fstat s fd with
      | (res, stat) =>
        if res ≠ 0 then some (.error res, (fclose s fd).2)
        else
          match kzalloc s.kernel (statSize stat) with
          | (programDataPtr, k) =>
            let s := { s with kernel := k }
            if programDataPtr = 0 then some (.error (-ENOMEM), (fclose s fd).2)
            else
              match fread s (statSize stat) 1 fd with
              | none => none
              | some (res, out, s) =>
                let s := s.store programDataPtr out
                if res ≠ 1 then
                  let s := { s with kernel := kfree s.kernel programDataPtr }
                  some (.error (- EIO), (fclose s fd).2)
                else some (.ok (.binary programDataPtr (statSize stat)), (fclose s fd).2)

/-- `process_load_data`: a file that is no ELF file is a binary. -/
def processLoadData (s : Files π) (filename : List UInt8) :
    Option (Except Int ProgramData × Files π) :=
  match elfLoadFrom s filename with
  | none => none
  | some (.ok file, s) => some (.ok (.elf file), s)
  | some (.error res, s) =>
    if res = -EINFORMAT then processLoadBinary s filename else some (.error res, s)

/-! ## 2. Mapping -/

/-- The flags of the program's own pages. -/
def programFlags : Nat := pagingIsPresent ||| pagingAccessFromAll ||| pagingIsWriteable

/-- `process_map_binary`: the program, and the video memory (20 lines of 80 characters). Both
    answers are dropped. -/
def processMapBinary (m : Mem) (chunk ptr size : Nat) : Int × Mem :=
  let m := (pagingMapTo m chunk 0x400000 ptr
    (pagingAlignAddress (u32 ((ptr + size : Nat) : Int))) programFlags).2
  let m := (pagingMapTo m chunk 0xB8000 0xB8000
    (pagingAlignAddress (0xB8000 + 20 * 80 * 2)) programFlags).2
  (0, m)

def processMapMemory (m : Mem) (chunk : Nat) (program : ProgramData) (stack : Nat) : Int × Mem :=
  match (match program with
    | .elf file => processMapElf m chunk file
    | .binary ptr size => processMapBinary m chunk ptr size) with
  | (res, m) =>
    if res < 0 then (res, m)
    else
      (res, (pagingMapTo m chunk (0x3FF000 - 1024 * 16) stack
        (pagingAlignAddress (u32 ((stack + 1024 * 16 : Nat) : Int))) programFlags).2)

/-! ## 3. Processes -/

/-- `struct process`, as far as loading and terminating use it. `process` is its table of
    allocations with `task->page_directory`. -/
structure LoadedProcess where
  address : Nat
  id : Nat
  program : ProgramData
  stack : Nat
  task : Nat
  process : Process
  /-- The addresses `kzalloc` answered for the process, its program, its stack and its task. -/
  blocks : List Nat

/-- The state: the file layer (with the kernel), the task list, `processes` (12 slots; 0 is empty)
    and `current_process`. -/
structure LoadState (π : Type) where
  files : Files π
  tasks : TaskGlobals
  processes : Nat → Nat
  currentProcess : Nat

/-- A change of the kernel. -/
def LoadState.withKernel (s : LoadState π) (k : Kernel) : LoadState π :=
  { s with files := { s.files with kernel := k } }

def processGet (s : LoadState π) (processId : Int) : Nat :=
  if processId < 0 ∨ 12 ≤ processId then 0 else s.processes processId.toNat

/-- What `task_init` reads of a process: `e_entry` stands 24 bytes into the file. -/
def ProgramData.entry (m : Mem) : ProgramData → Option Nat
  | .elf file => some (load32 m (file.elfMemory + 24))
  | .binary _ _ => none

/-- The answers of the requests for the program. -/
def ProgramData.blocks : ProgramData → List Nat
  | .elf file => [file.elfMemory, file.address]
  | .binary ptr _ => [ptr]

/-- The pointer that the caller of `task_new` gets; an error is a code cast to a pointer. -/
def taskPointer : Except Int Nat → Nat
  | .ok task => task
  | .error e => u32 e

/-- The allocations of a task; `task_new` releases them itself before it answers an error. -/
def taskBlocks (heap : Heap) : Except Int Nat → List Nat
  | .ok _ => (mallocAll taskSizes heap).1
  | .error _ => []

/-- `process_load_for_slot`: the process or the error, and the state. The structure has 9364 bytes.
    The caller tests the task for null only, which `task_new` never answers. -/
def processLoadForSlot (s : LoadState π) (filename : List UInt8) (processSlot : Nat) :
    Option (Except Int LoadedProcess × LoadState π) :=
  if processGet s processSlot ≠ 0 then some (.error (-EISTKN), s)
  else
    match kzalloc s.files.kernel 9364 with
    | (process, k) =>
      let s := s.withKernel k
      if process = 0 then some (.error (-ENOMEM), s)
      else
        match processLoadData s.files filename with
        | none => none
        | some (.error res, files) => some (.error res, { s with files := files })
        | some (.ok program, files) =>
          match kzalloc files.kernel (1024 * 16) with
          | (programStackPtr, k) =>
            let s := { s with files := files }
            if programStackPtr = 0 then some (.error (-ENOMEM), s.withKernel k)
            else
              let heap := k.heap
              match taskNew k s.tasks ⟨process, program.entry k.mem⟩ with
              | (task, k, tasks) =>
                let s := { s.withKernel k with tasks := tasks }
                if taskPointer task = 0 then some (.error 0, s)
                else
                  let pageDirectory := pageDirectoryOf k.mem (taskPointer task)
                  match processMapMemory k.mem pageDirectory program programStackPtr with
                  | (res, m) =>
                    if res < 0 then
                      match taskFree ⟨k.heap, m⟩ tasks (taskPointer task) with
                      | (k, tasks) => some (.error res, { s.withKernel k with tasks := tasks })
                    else
                      some (.ok
                        { address := process
                          id := processSlot
                          program := program
                          stack := programStackPtr
                          task := taskPointer task
                          process := freshProcess pageDirectory
                          blocks := process :: programStackPtr ::
                            (program.blocks ++ taskBlocks heap task) },
                        { s.withKernel ⟨k.heap, m⟩ with
                          processes := fun i => if i = processSlot then process else
                            s.processes i })

/-- `process_get_free_slot`. -/
def processGetFreeSlot (s : LoadState π) : Option Nat :=
  (List.range 12).find? fun i => s.processes i == 0

def processLoad (s : LoadState π) (filename : List UInt8) :
    Option (Except Int LoadedProcess × LoadState π) :=
  match processGetFreeSlot s with
  | none => some (.error (-EISTKN), s)
  | some processSlot => processLoadForSlot s filename processSlot

/-! ## 4. The ways through a load -/

/-- The file layer where the program's data is asked for. -/
def loadStart (s : LoadState π) : Files π := (s.withKernel (kzalloc s.files.kernel 9364).2).files

/-- The answer of `task_new` behind the request for the stack, and the state. -/
def loadTask (s : LoadState π) (program : ProgramData) (files : Files π) :
    Except Int Nat × Kernel × TaskGlobals :=
  taskNew (kzalloc files.kernel (1024 * 16)).2 s.tasks
    ⟨(kzalloc s.files.kernel 9364).1, program.entry (kzalloc files.kernel (1024 * 16)).2.mem⟩

/-- The answer of `process_map_memory` for that task, and memory. -/
def loadMapping (s : LoadState π) (program : ProgramData) (files : Files π) : Int × Mem :=
  processMapMemory (loadTask s program files).2.1.mem
    (pageDirectoryOf (loadTask s program files).2.1.mem (taskPointer (loadTask s program files).1))
    program (kzalloc files.kernel (1024 * 16)).1

/-- The load has its slot and its structure. -/
structure AtData (s : LoadState π) (slot : Nat) : Prop where
  slot : processGet s slot = 0
  process : (kzalloc s.files.kernel 9364).1 ≠ 0

/-- **The load came to `task_new`.** -/
structure AtTask (s : LoadState π) (filename : List UInt8) (slot : Nat) (program : ProgramData)
    (files : Files π) : Prop extends AtData s slot where
  data : processLoadData (loadStart s) filename = some (.ok program, files)
  stack : (kzalloc files.kernel (1024 * 16)).1 ≠ 0

/-- The table of a state. -/
def LoadState.tableSet (s : LoadState π) (i process : Nat) : Nat → Nat :=
  fun j => if j = i then process else s.processes j

/-- The process that a load answers. -/
def loadedProcess (s : LoadState π) (slot : Nat) (program : ProgramData) (files : Files π) :
    LoadedProcess where
  address := (kzalloc s.files.kernel 9364).1
  id := slot
  program := program
  stack := (kzalloc files.kernel (1024 * 16)).1
  task := taskPointer (loadTask s program files).1
  process := freshProcess
    (pageDirectoryOf (loadTask s program files).2.1.mem (taskPointer (loadTask s program files).1))
  blocks := (kzalloc s.files.kernel 9364).1 :: (kzalloc files.kernel (1024 * 16)).1 ::
    (program.blocks ++ taskBlocks (kzalloc files.kernel (1024 * 16)).2.heap
        (loadTask s program files).1)

/-- The state with that process. -/
def loadMapped (s : LoadState π) (slot : Nat) (program : ProgramData) (files : Files π) :
    LoadState π where
  files := { files with
    kernel := ⟨(loadTask s program files).2.1.heap, (loadMapping s program files).2⟩ }
  tasks := (loadTask s program files).2.2
  processes := s.tableSet slot (kzalloc s.files.kernel 9364).1
  currentProcess := s.currentProcess

/-- The task is freed behind a mapping that failed. -/
def loadFreed (s : LoadState π) (program : ProgramData) (files : Files π) : Kernel × TaskGlobals :=
  taskFree ⟨(loadTask s program files).2.1.heap, (loadMapping s program files).2⟩
    (loadTask s program files).2.2 (taskPointer (loadTask s program files).1)

/-- **The ways through `process_load_for_slot`** for an empty slot: what it answers, and the state.
    The load tests the pointer to the task for null only; behind `task_new` the mapping decides. -/
inductive LoadWay (s : LoadState π) (filename : List UInt8) (slot : Nat) :
    Except Int LoadedProcess → LoadState π → Prop where
  | process (hslot : processGet s slot = 0) (h0 : (kzalloc s.files.kernel 9364).1 = 0) :
      LoadWay s filename slot (.error (-ENOMEM)) (s.withKernel (kzalloc s.files.kernel 9364).2)
  | data {e : Int} {files : Files π} (h : AtData s slot)
      (he : processLoadData (loadStart s) filename = some (.error e, files)) :
      LoadWay s filename slot (.error e) { s with files := files }
  | stack {program : ProgramData} {files : Files π} (h : AtData s slot)
      (hdata : processLoadData (loadStart s) filename = some (.ok program, files))
      (h0 : (kzalloc files.kernel (1024 * 16)).1 = 0) :
      LoadWay s filename slot (.error (-ENOMEM))
        { s with files := { files with kernel := (kzalloc files.kernel (1024 * 16)).2 } }
  | freed {program : ProgramData} {files : Files π} (h : AtTask s filename slot program files)
      (hneg : (loadMapping s program files).1 < 0) :
      LoadWay s filename slot (.error (loadMapping s program files).1)
        { s with
          files := { files with kernel := (loadFreed s program files).1 }
          tasks := (loadFreed s program files).2 }
  | mapped {program : ProgramData} {files : Files π} (h : AtTask s filename slot program files)
      (hpos : 0 ≤ (loadMapping s program files).1) :
      LoadWay s filename slot (.ok (loadedProcess s slot program files))
        (loadMapped s slot program files)

/-- `task_new` does not answer null: an error is a code cast to a pointer. -/
theorem taskPointer_ne_zero (k : Kernel) (g : TaskGlobals) (process : TaskProcess) :
    taskPointer (taskNew k g process).1 ≠ 0 := by
  have hcode : (taskInit (kzalloc k 64).2 (kzalloc k 64).1 process).1 = 0 ∨
      (taskInit (kzalloc k 64).2 (kzalloc k 64).1 process).1 = - EIO := by
    unfold taskInit
    dsimp only
    split
    · exact Or.inr rfl
    · exact Or.inl rfl
  unfold taskNew
  dsimp only
  split
  · exact (by decide : u32 (-3) ≠ 0)
  · rename_i h0
    split
    · rename_i hneg
      show u32 _ ≠ 0
      rcases hcode with e | e
      · rw [e] at hneg
        exact absurd hneg (by decide)
      · rw [e]
        decide
    split
    · exact h0
    split
    · exact h0
    · exact h0

section Ways

variable {s s' : LoadState π} {filename : List UInt8} {slot : Nat} {program : ProgramData}
  {files : Files π} {r : Except Int LoadedProcess}

/-- Behind `task_new` the mapping decides, whatever `task_new` answered. -/
theorem AtTask.load (h : AtTask s filename slot program files) :
    processLoadForSlot s filename slot =
      if (loadMapping s program files).1 < 0 then some (.error (loadMapping s program files).1,
        { s with
          files := { files with kernel := (loadFreed s program files).1 }
          tasks := (loadFreed s program files).2 })
      else some (.ok (loadedProcess s slot program files), loadMapped s slot program files) := by
  have hdata := h.data
  have hpointer := taskPointer_ne_zero (kzalloc files.kernel (1024 * 16)).2 s.tasks
    ⟨(kzalloc s.files.kernel 9364).1, program.entry (kzalloc files.kernel (1024 * 16)).2.mem⟩
  have htasks : (s.withKernel (kzalloc s.files.kernel 9364).2).tasks = s.tasks := rfl
  unfold loadStart at hdata
  unfold loadedProcess loadMapped loadFreed loadMapping loadTask processLoadForSlot
  rw [if_neg (not_not.mpr h.slot)]
  dsimp only
  rw [if_neg h.process, hdata]
  dsimp only
  rw [if_neg h.stack, htasks]
  generalize taskNew _ _ _ = created at hpointer ⊢
  obtain ⟨task, k, tasks⟩ := created
  dsimp only at hpointer ⊢
  rw [if_neg hpointer]
  generalize processMapMemory k.mem _ program _ = mapped
  obtain ⟨res, m⟩ := mapped
  dsimp only
  by_cases hneg : res < 0
  · rw [if_pos hneg, if_pos hneg]
    generalize taskFree ⟨k.heap, m⟩ tasks (taskPointer task) = freed
    rfl
  · rw [if_neg hneg, if_neg hneg]
    rfl

theorem LoadWay.eq (h : LoadWay s filename slot r s') :
    processLoadForSlot s filename slot = some (r, s') := by
  cases h with
  | process hslot h0 =>
    unfold processLoadForSlot
    rw [if_neg (not_not.mpr hslot)]
    exact if_pos h0
  | data h he =>
    unfold loadStart at he
    unfold processLoadForSlot
    rw [if_neg (not_not.mpr h.slot)]
    dsimp only
    rw [if_neg h.process, he]
    rfl
  | stack h hdata h0 =>
    unfold loadStart at hdata
    unfold processLoadForSlot
    rw [if_neg (not_not.mpr h.slot)]
    dsimp only
    rw [if_neg h.process, hdata]
    dsimp only
    rw [if_pos h0]
    rfl
  | freed h hneg => rw [h.load, if_pos hneg]
  | mapped h hpos => rw [h.load, if_neg (Int.not_lt.mpr hpos)]

/-- **There are no other ways.** -/
theorem processLoadForSlot_way (hslot : processGet s slot = 0)
    (h : processLoadForSlot s filename slot = some (r, s')) : LoadWay s filename slot r s' := by
  -- each way answers what the load answered
  have hway : ∀ {r₁ s₁}, LoadWay s filename slot r₁ s₁ → LoadWay s filename slot r s' := by
    intro r₁ s₁ hw
    obtain ⟨rfl, rfl⟩ := Prod.mk.inj (Option.some.inj (h.symm.trans hw.eq))
    exact hw
  by_cases h0 : (kzalloc s.files.kernel 9364).1 = 0
  · exact hway (.process hslot h0)
  have hat : AtData s slot := ⟨hslot, h0⟩
  rcases hdata : processLoadData (loadStart s) filename with _ | ⟨e | program, files⟩
  · unfold loadStart at hdata
    unfold processLoadForSlot at h
    rw [if_neg (not_not.mpr hslot)] at h
    dsimp only at h
    rw [if_neg h0, hdata] at h
    cases h
  · exact hway (.data hat hdata)
  · by_cases hstack : (kzalloc files.kernel (1024 * 16)).1 = 0
    · exact hway (.stack hat hdata hstack)
    · have htask : AtTask s filename slot program files := ⟨hat, hdata, hstack⟩
      by_cases hneg : (loadMapping s program files).1 < 0
      · exact hway (.freed htask hneg)
      · exact hway (.mapped htask (Int.not_lt.mp hneg))

/-- A process is answered for an empty slot, and by one way. -/
theorem processLoadForSlot_ok {process : LoadedProcess}
    (h : processLoadForSlot s filename slot = some (.ok process, s')) :
    ∃ program files, AtTask s filename slot program files ∧
      process = loadedProcess s slot program files ∧ s' = loadMapped s slot program files := by
  by_cases hslot : processGet s slot = 0
  · cases processLoadForSlot_way hslot h with
    | mapped hat hpos => exact ⟨_, _, hat, rfl, rfl⟩
  · unfold processLoadForSlot at h
    rw [if_pos hslot] at h
    cases h

end Ways

/-! ## 5. The ways to the program's data -/

/-- The file layer where `elf_load` opens its file. -/
def elfStart (s : Files π) : Files π := { s with kernel := (kzalloc s.kernel 132).2 }

/-- What `elf_load` answers behind its read. -/
def elfAnswer (res : Int) (processed : Int × ElfFile) : Except Int ElfFile :=
  if res < 0 then .error res else if processed.1 < 0 then .error processed.1 else .ok processed.2

/-- **The ways through `elf_load`**: the file is not opened, or not found, or it is read; in any
    case it is closed. -/
inductive ElfWay (s : Files π) (filename : List UInt8) : Except Int ElfFile → Files π → Prop where
  | unopened {fd : Int} {s₁ : Files π} (ho : fopen (elfStart s) filename readMode = some (fd, s₁))
      (hfd : fd ≤ 0) : ElfWay s filename (.error (- EIO)) (fclose s₁ 0).2
  | stat {fd : Int} {s₁ : Files π} (ho : fopen (elfStart s) filename readMode = some (fd, s₁))
      (hfd : 0 < fd) (hneg : (fstat s₁ fd).1 < 0) :
      ElfWay s filename (.error (fstat s₁ fd).1) (fclose s₁ fd).2
  | read {fd res : Int} {s₁ s₂ : Files π} {out : List UInt8}
      (ho : fopen (elfStart s) filename readMode = some (fd, s₁)) (hfd : 0 < fd)
      (hstat : ¬ (fstat s₁ fd).1 < 0)
      (hr : fread { s₁ with kernel := (kzalloc s₁.kernel (statSize (fstat s₁ fd).2)).2 }
        (statSize (fstat s₁ fd).2) 1 fd = some (res, out, s₂)) (processed : Int × ElfFile)
      (hp : processed =
        elfProcessLoaded (s₂.store (kzalloc s₁.kernel (statSize (fstat s₁ fd).2)).1 out).kernel.mem
          ⟨(kzalloc s.kernel 132).1, (kzalloc s₁.kernel (statSize (fstat s₁ fd).2)).1, 0, 0, 0,
            0⟩) :
      ElfWay s filename (elfAnswer res processed)
        (fclose (s₂.store (kzalloc s₁.kernel (statSize (fstat s₁ fd).2)).1 out) fd).2

/-- **The ways through `process_load_binary`**: here the memory is looked at, and given back where
    the file is not read whole. -/
inductive BinaryWay (s : Files π) (filename : List UInt8) :
    Except Int ProgramData → Files π → Prop where
  | unopened {s₁ : Files π} (ho : fopen s filename readMode = some (0, s₁)) :
      BinaryWay s filename (.error (- EIO)) (fclose s₁ 0).2
  | stat {fd : Int} {s₁ : Files π} (ho : fopen s filename readMode = some (fd, s₁))
      (hne : (fstat s₁ fd).1 ≠ 0) : BinaryWay s filename (.error (fstat s₁ fd).1) (fclose s₁ fd).2
  | memory {fd : Int} {s₁ : Files π} (ho : fopen s filename readMode = some (fd, s₁))
      (h0 : (kzalloc s₁.kernel (statSize (fstat s₁ fd).2)).1 = 0) :
      BinaryWay s filename (.error (-ENOMEM))
        (fclose { s₁ with kernel := (kzalloc s₁.kernel (statSize (fstat s₁ fd).2)).2 } fd).2
  | unread {fd res : Int} {s₁ s₂ : Files π} {out : List UInt8}
      (ho : fopen s filename readMode = some (fd, s₁)) (hopen : fd ≠ 0 ∧ (fstat s₁ fd).1 = 0)
      (h0 : (kzalloc s₁.kernel (statSize (fstat s₁ fd).2)).1 ≠ 0)
      (hr : fread { s₁ with kernel := (kzalloc s₁.kernel (statSize (fstat s₁ fd).2)).2 }
        (statSize (fstat s₁ fd).2) 1 fd = some (res, out, s₂)) (h1 : res ≠ 1) :
      BinaryWay s filename (.error (- EIO))
        (fclose { s₂.store (kzalloc s₁.kernel (statSize (fstat s₁ fd).2)).1 out with
          kernel := kfree (s₂.store (kzalloc s₁.kernel (statSize (fstat s₁ fd).2)).1 out).kernel
            (kzalloc s₁.kernel (statSize (fstat s₁ fd).2)).1 } fd).2
  | read {fd : Int} {s₁ s₂ : Files π} {out : List UInt8}
      (ho : fopen s filename readMode = some (fd, s₁)) (hopen : fd ≠ 0 ∧ (fstat s₁ fd).1 = 0)
      (h0 : (kzalloc s₁.kernel (statSize (fstat s₁ fd).2)).1 ≠ 0)
      (hr : fread { s₁ with kernel := (kzalloc s₁.kernel (statSize (fstat s₁ fd).2)).2 }
        (statSize (fstat s₁ fd).2) 1 fd = some (1, out, s₂)) :
      BinaryWay s filename
        (.ok (.binary (kzalloc s₁.kernel (statSize (fstat s₁ fd).2)).1 (statSize (fstat s₁ fd).2)))
        (fclose (s₂.store (kzalloc s₁.kernel (statSize (fstat s₁ fd).2)).1 out) fd).2

section Ways

variable {s s' : Files π} {filename : List UInt8}

theorem elfLoadFrom_way {r : Except Int ElfFile} (h : elfLoadFrom s filename = some (r, s')) :
    ElfWay s filename r s' := by
  unfold elfLoadFrom at h
  dsimp only at h
  rcases ho : fopen (elfStart s) filename readMode with _ | ⟨fd, s₁⟩
  · unfold elfStart at ho
    rw [ho] at h
    cases h
  have ho' := ho
  unfold elfStart at ho'
  rw [ho'] at h
  dsimp only at h
  by_cases hfd : fd ≤ 0
  · rw [if_pos hfd] at h
    obtain ⟨rfl, rfl⟩ := Prod.mk.inj (Option.some.inj h)
    exact .unopened ho hfd
  rw [if_neg hfd] at h
  by_cases hneg : (fstat s₁ fd).1 < 0
  · rw [if_pos hneg] at h
    obtain ⟨rfl, rfl⟩ := Prod.mk.inj (Option.some.inj h)
    exact .stat ho (Int.not_le.mp hfd) hneg
  rw [if_neg hneg] at h
  rcases hr : fread { s₁ with kernel := (kzalloc s₁.kernel (statSize (fstat s₁ fd).2)).2 }
      (statSize (fstat s₁ fd).2) 1 fd with _ | ⟨res, out, s₂⟩
  · rw [hr] at h
    cases h
  have hway := ElfWay.read ho (Int.not_le.mp hfd) hneg hr _ rfl
  rw [hr] at h
  unfold elfAnswer at hway
  dsimp only at h
  generalize elfProcessLoaded _ _ = processed at h hway
  obtain ⟨code, file⟩ := processed
  dsimp only at h hway
  by_cases hres : res < 0
  · rw [if_pos hres] at h hway
    obtain ⟨rfl, rfl⟩ := Prod.mk.inj (Option.some.inj h)
    exact hway
  rw [if_neg hres] at h hway
  by_cases hcode : code < 0
  · rw [if_pos hcode] at h hway
    obtain ⟨rfl, rfl⟩ := Prod.mk.inj (Option.some.inj h)
    exact hway
  · rw [if_neg hcode] at h hway
    obtain ⟨rfl, rfl⟩ := Prod.mk.inj (Option.some.inj h)
    exact hway

theorem processLoadBinary_way {r : Except Int ProgramData}
    (h : processLoadBinary s filename = some (r, s')) : BinaryWay s filename r s' := by
  unfold processLoadBinary at h
  rcases ho : fopen s filename readMode with _ | ⟨fd, s₁⟩
  · rw [ho] at h
    cases h
  rw [ho] at h
  dsimp only at h
  by_cases hfd : fd = 0
  · subst hfd
    rw [if_pos rfl] at h
    obtain ⟨rfl, rfl⟩ := Prod.mk.inj (Option.some.inj h)
    exact .unopened ho
  rw [if_neg hfd] at h
  by_cases hne : (fstat s₁ fd).1 ≠ 0
  · rw [if_pos hne] at h
    obtain ⟨rfl, rfl⟩ := Prod.mk.inj (Option.some.inj h)
    exact .stat ho hne
  rw [if_neg hne] at h
  by_cases h0 : (kzalloc s₁.kernel (statSize (fstat s₁ fd).2)).1 = 0
  · rw [if_pos h0] at h
    obtain ⟨rfl, rfl⟩ := Prod.mk.inj (Option.some.inj h)
    exact .memory ho h0
  rw [if_neg h0] at h
  rcases hr : fread { s₁ with kernel := (kzalloc s₁.kernel (statSize (fstat s₁ fd).2)).2 }
      (statSize (fstat s₁ fd).2) 1 fd with _ | ⟨res, out, s₂⟩
  · rw [hr] at h
    cases h
  rw [hr] at h
  dsimp only at h
  by_cases h1 : res ≠ 1
  · rw [if_pos h1] at h
    obtain ⟨rfl, rfl⟩ := Prod.mk.inj (Option.some.inj h)
    exact .unread ho ⟨hfd, not_not.mp hne⟩ h0 hr h1
  · rw [if_neg h1] at h
    obtain rfl := not_not.mp h1
    obtain ⟨rfl, rfl⟩ := Prod.mk.inj (Option.some.inj h)
    exact .read ho ⟨hfd, not_not.mp hne⟩ h0 hr

/-- **The ways through `process_load_data`**: what `elf_load` answers, or a binary. -/
theorem processLoadData_way {r : Except Int ProgramData}
    (h : processLoadData s filename = some (r, s')) :
    (∃ file, r = .ok (.elf file) ∧ elfLoadFrom s filename = some (.ok file, s')) ∨
    (∃ e, r = .error e ∧ elfLoadFrom s filename = some (.error e, s')) ∨
    ∃ s₁, elfLoadFrom s filename = some (.error (-EINFORMAT), s₁) ∧
      processLoadBinary s₁ filename = some (r, s') := by
  unfold processLoadData at h
  rcases helf : elfLoadFrom s filename with _ | ⟨e | file, s₁⟩
  · rw [helf] at h
    cases h
  · rw [helf] at h
    dsimp only at h
    split at h
    · rename_i he
      subst he
      exact Or.inr (Or.inr ⟨s₁, rfl, h⟩)
    · obtain ⟨rfl, rfl⟩ := Prod.mk.inj (Option.some.inj h)
      exact Or.inr (Or.inl ⟨e, rfl, rfl⟩)
  · rw [helf] at h
    obtain ⟨rfl, rfl⟩ := Prod.mk.inj (Option.some.inj h)
    exact Or.inl ⟨file, rfl, rfl⟩

end Ways

/-! ## 6. What a load leaves -/

section Loading

variable {s s' : Files π} {filename : List UInt8}

/-- The state behind a read into memory that was asked for. -/
theorem store_placed {s₁ s₂ : Files π} {size : Nat} {fd res : Int} {out : List UInt8}
    (hp : s₁.kernel.heap.Placed)
    (hr : fread { s₁ with kernel := (kzalloc s₁.kernel size).2 } size 1 fd = some (res, out, s₂))
    (ptr : Nat) : (s₂.store ptr out).kernel.heap.Placed := by
  show s₂.kernel.heap.Placed
  rw [fread_kernel hr]
  exact kzalloc_placed hp size

theorem elfLoadFrom_placed {r : Except Int ElfFile} (hp : s.kernel.heap.Placed)
    (h : elfLoadFrom s filename = some (r, s')) : s'.kernel.heap.Placed := by
  have hp₀ : (elfStart s).kernel.heap.Placed := kzalloc_placed hp 132
  cases elfLoadFrom_way h with
  | unopened ho _ => exact fclose_placed (fopen_placed hp₀ ho) 0
  | stat ho _ _ => exact fclose_placed (fopen_placed hp₀ ho) _
  | read ho _ _ hr _ _ => exact fclose_placed (store_placed (fopen_placed hp₀ ho) hr _) _

theorem processLoadBinary_placed {r : Except Int ProgramData} (hp : s.kernel.heap.Placed)
    (h : processLoadBinary s filename = some (r, s')) : s'.kernel.heap.Placed := by
  cases processLoadBinary_way h with
  | unopened ho => exact fclose_placed (fopen_placed hp ho) 0
  | stat ho _ => exact fclose_placed (fopen_placed hp ho) _
  | memory ho _ => exact fclose_placed (kzalloc_placed (fopen_placed hp ho) _) _
  | unread ho _ _ hr _ => exact fclose_placed ((store_placed (fopen_placed hp ho) hr _).free _) _
  | read ho _ _ hr => exact fclose_placed (store_placed (fopen_placed hp ho) hr _) _

theorem processLoadData_placed {r : Except Int ProgramData} (hp : s.kernel.heap.Placed)
    (h : processLoadData s filename = some (r, s')) : s'.kernel.heap.Placed := by
  rcases processLoadData_way h with ⟨_, -, helf⟩ | ⟨_, -, helf⟩ | ⟨s₁, helf, hbinary⟩
  · exact elfLoadFrom_placed hp helf
  · exact elfLoadFrom_placed hp helf
  · exact processLoadBinary_placed (elfLoadFrom_placed hp helf) hbinary

end Loading

/-- **A process that was loaded**: its structure and its stack have blocks. Its task has all its
    blocks, or there is no task, and the pointer to it is an error code. Nothing is recorded yet. -/
structure Loaded (proc : LoadedProcess) : Prop where
  address : proc.address ≠ 0
  stack : proc.stack ≠ 0
  recorded : proc.process.recorded = []
  blocks : ∃ taskBlocks, proc.blocks =
      proc.address :: proc.stack :: (proc.program.blocks ++ taskBlocks) ∧
    (taskBlocks = [] ∨ (taskBlocks.length = 1027 ∧ 0 ∉ taskBlocks))

theorem taskBlocks_cases {k : Kernel} (hp : k.heap.Placed) (g : TaskGlobals)
    (process : TaskProcess) : taskBlocks k.heap (taskNew k g process).1 = [] ∨
      ((taskBlocks k.heap (taskNew k g process).1).length = 1027 ∧
        0 ∉ taskBlocks k.heap (taskNew k g process).1) := by
  cases h : (taskNew k g process).1 with
  | error e => exact Or.inl rfl
  | ok task =>
    refine Or.inr ⟨?_, (taskNew_granted hp h).2⟩
    show (mallocAll taskSizes k.heap).1.length = 1027
    rw [mallocAll_length, taskSizes_length]

theorem processLoadForSlot_loaded {s s' : LoadState π} {filename : List UInt8} {slot : Nat}
    {proc : LoadedProcess} (hp : s.files.kernel.heap.Placed)
    (h : processLoadForSlot s filename slot = some (.ok proc, s')) : Loaded proc := by
  obtain ⟨program, files, hat, rfl, -⟩ := processLoadForSlot_ok h
  have hp₁ : files.kernel.heap.Placed := processLoadData_placed (kzalloc_placed hp 9364) hat.data
  exact ⟨hat.process, hat.stack, freshProcess_recorded _, _, rfl,
    taskBlocks_cases (kzalloc_placed hp₁ (1024 * 16)) _ _⟩

theorem processLoad_loaded {s s' : LoadState π} {filename : List UInt8} {proc : LoadedProcess}
    (hp : s.files.kernel.heap.Placed) (h : processLoad s filename = some (.ok proc, s')) :
    Loaded proc := by
  unfold processLoad at h
  split at h
  · cases h
  · exact processLoadForSlot_loaded hp h

/-! ## 7. A binary that fits -/

/-- **A binary that was read is loaded** where the stack and the task have room. -/
theorem processLoadForSlot_binary {s : LoadState π} {filename : List UInt8} {slot ptr size : Nat}
    {files : Files π} (hat : AtTask s filename slot (.binary ptr size) files) :
    ∃ process s', processLoadForSlot s filename slot = some (.ok process, s') ∧
      s'.currentProcess = s.currentProcess ∧
      ∃ directory, process.process = freshProcess directory :=
  ⟨_, _, LoadWay.eq (.mapped hat (Int.le_refl 0)), rfl, _, rfl⟩

/-- The stack has a block, and behind it are 33 rows of 32 free blocks for the task. -/
def RoomForStackAndTask (files : Files π) : Prop :=
  (kzalloc files.kernel (1024 * 16)).1 ≠ 0 ∧
    64 + 33 * 32 ≤ (kzalloc files.kernel (1024 * 16)).2.heap.table.total ∧
    ∀ i, i < 33 → ∀ j, j < 32 → (kzalloc files.kernel (1024 * 16)).2.heap.IsFree (64 + (i * 32 + j))

instance (files : Files π) : Decidable (RoomForStackAndTask files) :=
  inferInstanceAs (Decidable (_ ∧ _ ∧ _))

theorem RoomForStackAndTask.free {files : Files π} (h : RoomForStackAndTask files) :
    33 * 32 ≤ freeBlocks (kzalloc files.kernel (1024 * 16)).2.heap := by
  obtain ⟨-, htotal, hfree⟩ := h
  refine le_freeBlocks htotal fun i hi => ?_
  rw [← Nat.div_add_mod' i 32]
  exact hfree _ (Nat.div_lt_of_lt_mul (by omega)) _ (Nat.mod_lt _ (by decide))

/-- A binary was read, and there is room for its stack and its task. -/
def binaryFits : Option (Except Int ProgramData × Files π) → Bool
  | some (.ok (.binary _ _), files) => decide (RoomForStackAndTask files)
  | _ => false

/-- A binary that fits. -/
theorem processLoad_binary {s : LoadState π} {filename : List UInt8} (hslot : s.processes 0 = 0)
    (h0 : (kzalloc s.files.kernel 9364).1 ≠ 0)
    (hfits : binaryFits
      (processLoadData (s.withKernel (kzalloc s.files.kernel 9364).2).files filename) = true) :
    ∃ process s₁, processLoad s filename = some (.ok process, s₁) ∧
      s₁.currentProcess = s.currentProcess ∧
      ∃ directory, process.process = freshProcess directory := by
  have hfree : processGetFreeSlot s = some 0 := by
    unfold processGetFreeSlot
    exact List.find?_range_eq_some.mpr ⟨decide_eq_true hslot, List.mem_range.mpr (by decide),
      fun j hj => absurd hj (Nat.not_lt_zero j)⟩
  have hget : processGet s 0 = 0 := by
    unfold processGet
    rw [if_neg (by decide)]
    exact hslot
  unfold processLoad
  rw [hfree]
  dsimp only
  rcases hdata : processLoadData (s.withKernel (kzalloc s.files.kernel 9364).2).files filename with
    _ | ⟨e | file | ⟨ptr, size⟩, files⟩
  · rw [hdata] at hfits
    cases hfits
  · rw [hdata] at hfits
    cases hfits
  · rw [hdata] at hfits
    cases hfits
  · rw [hdata] at hfits
    have hroom : RoomForStackAndTask files := of_decide_eq_true hfits
    exact processLoadForSlot_binary ⟨⟨hget, h0⟩, hdata, hroom.1⟩

end PeachKernel
