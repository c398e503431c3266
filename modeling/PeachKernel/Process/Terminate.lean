/-
  File:      PeachKernel/Process/Terminate.lean
  Subject:   `process_terminate`: what it hands to `kfree`, against what was allocated.

  The end of a process releases the allocations of its table in a sweep over all 1024 slots, the
  program's data, the stack and the task; the process structure stays. The sweep also visits the
  empty slots, and releases the null pointer for each of them.

  * `processTerminate` -- the source function; `none` where `process_unlink` finds no other process
    and the kernel panics;
  * `terminateFrees` -- the arguments of `kfree`, in order; `processTerminate_heap` says that the
    heap is the one behind these releases;
  * `sweep_count` -- without a null pointer, the sweep releases at most what the table records;
  * `processTerminate_inexact` -- the releases are never exactly the allocations: a null pointer is
    among them, or they are too few, or (for a task that is an error code) too many.
-/
import PeachKernel.Process.Load
import PeachKernel.Fs.Fat32File
import PeachKernel.Paging.Directory

namespace PeachKernel

open CInt Mem

variable {π : Type}

/-! ## 1. The source functions -/

/-- The loop of `process_terminate_allocations`, the last `left` slots from slot `i`. -/
def terminateAllocationsLoop : (left i : Nat) → Kernel → Process → Kernel × Process
  | 0, _, k, p => (k, p)
  | left + 1, i, k, p =>
    match processFree k p (p.allocations.getD i ⟨0, 0⟩).ptr with
    | (k, p) => terminateAllocationsLoop left (i + 1) k p

def processTerminateAllocations (k : Kernel) (p : Process) : Kernel × Process :=
  terminateAllocationsLoop 1024 0 k p

/-- `process_free_program_data`; `elf_close` of a null pointer does nothing. -/
def processFreeProgramData (k : Kernel) : ProgramData → Kernel
  | .binary ptr _ => kfree k ptr
  | .elf file => if file.address = 0 then k else elfClose k file

/-- `process_switch_to_any`: the process in the first slot in use. -/
def processSwitchToAny (s : LoadState π) : Option (LoadState π) :=
  ((List.range 12).find? fun i => s.processes i != 0).map fun i =>
    { s with currentProcess := s.processes i }

def processUnlink (s : LoadState π) (process : LoadedProcess) : Option (LoadState π) :=
  let s := { s with processes := fun i => if i = process.id then 0 else s.processes i }
  if s.currentProcess = process.address then processSwitchToAny s else some s

def processTerminate (s : LoadState π) (process : LoadedProcess) : Option (Int × LoadState π) :=
  let k := (processTerminateAllocations s.files.kernel process.process).1
  let k := processFreeProgramData k process.program
  let k := kfree k process.stack
  match taskFree k s.tasks process.task with
  | (k, tasks) =>
    (processUnlink { s.withKernel k with tasks := tasks } process).map fun s => (0, s)

/-- A process that is not the current one is unlinked without a switch. -/
theorem processTerminate_other {s : LoadState π} {process : LoadedProcess}
    (h : s.currentProcess ≠ process.address) : ∃ s', processTerminate s process = some (0, s') := by
  have hunlink : ∀ s' : LoadState π, s'.currentProcess = s.currentProcess →
      ∃ s'', processUnlink s' process = some s'' := by
    intro s' hs'
    unfold processUnlink
    dsimp only
    rw [hs', if_neg h]
    exact ⟨_, rfl⟩
  unfold processTerminate
  dsimp only
  generalize taskFree _ _ _ = r
  obtain ⟨s', hs'⟩ := hunlink { s.withKernel r.1 with tasks := r.2 } rfl
  exact ⟨s', congrArg (Option.map _) hs'⟩

/-! ## 2. The arguments of `kfree` -/

/-- What `process_free` hands to `kfree`. -/
def processFreeArgs (k : Kernel) (p : Process) (ptr : Nat) : List Nat :=
  match processGetAllocationByAddr p ptr with
  | none => []
  | some allocation =>
    if (pagingMapTo k.mem p.pageDirectory allocation.ptr allocation.ptr
        (pagingAlignAddress (u32 ((allocation.ptr + allocation.size : Nat) : Int))) 0x00).1 < 0 then
          []
    else [ptr]

/-- ... and the sweep. -/
def sweepFrees : (left i : Nat) → Kernel → Process → List Nat
  | 0, _, _, _ => []
  | left + 1, i, k, p =>
    let ptr := (p.allocations.getD i ⟨0, 0⟩).ptr
    processFreeArgs k p ptr ++
      sweepFrees left (i + 1) (processFree k p ptr).1 (processFree k p ptr).2

def ProgramData.frees : ProgramData → List Nat
  | .binary ptr _ => [ptr]
  | .elf file => if file.address = 0 then [] else [file.elfMemory, file.address]

/-- What `paging_free_4gb` releases: the tables that the directory names, the directory, the
    chunk. -/
def directoryFrees (m : Mem) (chunk : Nat) : List Nat :=
  (List.range' 0 1024).map (fun i => load32 m (load32 m chunk + 4 * i) &&& 0xfffff000) ++
    [load32 m chunk, chunk]

def taskFrees (m : Mem) (task : Nat) : List Nat :=
  directoryFrees m (pageDirectoryOf m task) ++ [task]

/-- **The arguments of `kfree` in `process_terminate`.** -/
def terminateFrees (k : Kernel) (process : LoadedProcess) : List Nat :=
  sweepFrees 1024 0 k process.process ++ (process.program.frees ++ (process.stack ::
    taskFrees (processTerminateAllocations k process.process).1.mem process.task))

theorem processFree_heap (k : Kernel) (p : Process) (ptr : Nat) :
    (processFree k p ptr).1.heap = (processFreeArgs k p ptr).foldl heapFree k.heap := by
  unfold processFree processFreeArgs
  cases processGetAllocationByAddr p ptr with
  | none => rfl
  | some allocation =>
    dsimp only
    split
    · rfl
    · rfl

theorem terminateAllocationsLoop_heap (left : Nat) : ∀ (i : Nat) (k : Kernel) (p : Process),
    (terminateAllocationsLoop left i k p).1.heap = (sweepFrees left i k p).foldl heapFree
      k.heap := by
  induction left with
  | zero => exact fun _ _ _ => rfl
  | succ left ih =>
    intro i k p
    rw [terminateAllocationsLoop, sweepFrees]
    dsimp only
    rw [ih, List.foldl_append, processFree_heap]

theorem processFreeProgramData_heap (k : Kernel) (program : ProgramData) :
    (processFreeProgramData k program).heap = program.frees.foldl heapFree k.heap ∧
      (processFreeProgramData k program).mem = k.mem := by
  cases program with
  | binary ptr size => exact ⟨rfl, rfl⟩
  | elf file =>
    unfold processFreeProgramData ProgramData.frees
    dsimp only
    split
    · exact ⟨rfl, rfl⟩
    · exact ⟨rfl, rfl⟩

/-- The tables, as the directory names them; releasing writes no memory. -/
theorem freeTablesLoop_frees (chunk left : Nat) : ∀ (i : Nat) (k : Kernel),
    freeTablesLoop chunk left i k =
      ⟨((List.range' i left).map fun i =>
        load32 k.mem (load32 k.mem chunk + 4 * i) &&& 0xfffff000).foldl heapFree k.heap,
            k.mem⟩ := by
  induction left with
  | zero => exact fun _ _ => rfl
  | succ left ih =>
    intro i k
    rw [freeTablesLoop, List.range'_succ, ih, List.map_cons, List.foldl_cons]
    rfl

theorem pagingFree4gb_frees (k : Kernel) (chunk : Nat) :
    pagingFree4gb k chunk = ⟨(directoryFrees k.mem chunk).foldl heapFree k.heap, k.mem⟩ := by
  unfold pagingFree4gb directoryFrees
  rw [freeTablesLoop_frees, List.foldl_append]
  generalize List.foldl heapFree k.heap _ = heap
  rfl

theorem taskFree_heap (k : Kernel) (g : TaskGlobals) (task : Nat) :
    (taskFree k g task).1.heap = (taskFrees k.mem task).foldl heapFree k.heap := by
  unfold taskFree taskFrees
  rw [pagingFree4gb_frees, List.foldl_append]
  generalize List.foldl heapFree k.heap _ = heap
  rfl

theorem processUnlink_kernel {s s' : LoadState π} {process : LoadedProcess}
    (h : processUnlink s process = some s') : s'.files = s.files := by
  unfold processUnlink at h
  dsimp only at h
  split at h
  · obtain ⟨i, -, rfl⟩ := Option.map_eq_some_iff.mp h
    rfl
  · obtain rfl := Option.some.inj h
    rfl

/-- **The heap behind `process_terminate`** is the one behind these releases. -/
theorem processTerminate_heap {s s' : LoadState π} {process : LoadedProcess} {res : Int}
    (h : processTerminate s process = some (res, s')) :
    s'.files.kernel.heap =
      (terminateFrees s.files.kernel process).foldl heapFree s.files.kernel.heap := by
  unfold processTerminate at h
  dsimp only at h
  obtain ⟨s₁, hs₁, e⟩ := Option.map_eq_some_iff.mp h
  obtain ⟨-, rfl⟩ := Prod.mk.inj e
  rw [processUnlink_kernel hs₁]
  obtain ⟨hheap, hmem⟩ := processFreeProgramData_heap
    (processTerminateAllocations s.files.kernel process.process).1 process.program
  show (taskFree _ s.tasks process.task).1.heap = _
  rw [taskFree_heap]
  unfold terminateFrees
  rw [List.foldl_append, List.foldl_append, List.foldl_cons]
  have hsweep := terminateAllocationsLoop_heap 1024 0 s.files.kernel process.process
  show (taskFrees (processFreeProgramData _ _).mem _).foldl heapFree
    (heapFree (processFreeProgramData _ _).heap _) = _
  rw [hmem, hheap]
  unfold processTerminateAllocations
  rw [hsweep]

/-! ## 3. Counting -/

/-- One `process_free`: nothing is released and the table stays, or a recorded pointer (or null) is
    released and leaves the table. -/
theorem processFree_cases (k : Kernel) (p : Process) (ptr : Nat) :
    (processFreeArgs k p ptr = [] ∧ (processFree k p ptr).2 = p) ∨
    (processFreeArgs k p ptr = [ptr] ∧ (processFree k p ptr).2 = processAllocationUnjoin p ptr ∧
      ∃ a ∈ p.allocations, a.ptr = ptr) := by
  unfold processFreeArgs processFree
  cases hget : processGetAllocationByAddr p ptr with
  | none => exact Or.inl ⟨rfl, rfl⟩
  | some a =>
    dsimp only
    split
    · exact Or.inl ⟨rfl, rfl⟩
    · exact Or.inr ⟨rfl, rfl, a, List.mem_of_find?_eq_some hget,
        of_decide_eq_true (List.find?_some (p := fun a : Allocation => a.ptr == ptr) hget)⟩

/-- **Without a null pointer the sweep releases at most what is recorded**: each release takes a
    pointer out of the table. -/
theorem sweep_count (left : Nat) : ∀ {i : Nat} {k : Kernel} {p : Process},
    0 ∉ sweepFrees left i k p → (sweepFrees left i k p).length ≤ p.recorded.length := by
  induction left with
  | zero => exact fun _ => Nat.zero_le _
  | succ left ih =>
    intro i k p h0
    rw [sweepFrees] at h0 ⊢
    generalize (p.allocations.getD i ⟨0, 0⟩).ptr = ptr at h0 ⊢
    have hrest := ih fun h => h0 (List.mem_append_right _ h)
    rw [List.length_append]
    rcases processFree_cases k p ptr with ⟨hargs, hp⟩ | ⟨hargs, hp, a, ha, hptr⟩
    · rw [hp] at hrest
      rw [hargs, hp]
      exact Nat.le_trans (Nat.le_of_eq (Nat.zero_add _)) hrest
    · have hne : ptr ≠ 0 := by
        intro e
        rw [hargs] at h0
        exact h0 (List.mem_append_left _ (e ▸ List.mem_cons_self))
      -- the table loses at least the allocation that was found
      have hlt : (processAllocationUnjoin p ptr).recorded.length < p.recorded.length := by
        rw [recorded_unjoin]
        refine List.length_filter_lt_length_iff_exists.mpr
          ⟨a, mem_recorded.mpr ⟨ha, hptr ▸ hne⟩, ?_⟩
        rw [hptr]
        exact fun h => of_decide_eq_true h rfl
      rw [hp] at hrest
      rw [hargs, hp]
      show 1 + _ ≤ _
      omega

theorem processFreeArgs_null {p : Process} {rest : List Allocation}
    (h : p.allocations = ⟨0, 0⟩ :: rest) (k : Kernel) : processFreeArgs k p 0 = [0] := by
  have hget : processGetAllocationByAddr p 0 = some ⟨0, 0⟩ := by
    unfold processGetAllocationByAddr
    rw [h]
    rfl
  unfold processFreeArgs
  rw [hget]
  exact if_neg (Int.lt_irrefl 0)

/-- **An empty slot has the null pointer released.** -/
theorem sweepFrees_null {p : Process} {rest : List Allocation}
    (h : p.allocations = ⟨0, 0⟩ :: rest) (left : Nat) (k : Kernel) :
    0 ∈ sweepFrees (left + 1) 0 k p := by
  rw [sweepFrees, h]
  refine List.mem_append_left _ ?_
  show 0 ∈ processFreeArgs k p 0
  rw [processFreeArgs_null h]
  exact List.mem_cons_self

theorem directoryFrees_length (m : Mem) (chunk : Nat) : (directoryFrees m chunk).length = 1026 := by
  unfold directoryFrees
  rw [List.length_append, List.length_map, List.length_range']
  rfl

theorem taskFrees_length (m : Mem) (task : Nat) : (taskFrees m task).length = 1027 := by
  unfold taskFrees
  rw [List.length_append, directoryFrees_length]
  rfl

/-- The answers of `kzalloc` that are blocks. -/
def grantedBlocks (ptrs : List Nat) : List Nat := ptrs.filter fun ptr => ptr ≠ 0

theorem grantedBlocks_cons {ptr : Nat} (h : ptr ≠ 0) (ptrs : List Nat) :
    grantedBlocks (ptr :: ptrs) = ptr :: grantedBlocks ptrs := by
  unfold grantedBlocks
  rw [List.filter_cons, if_pos (decide_eq_true h)]

theorem grantedBlocks_append (ptrs ptrs' : List Nat) :
    grantedBlocks (ptrs ++ ptrs') = grantedBlocks ptrs ++ grantedBlocks ptrs' :=
  List.filter_append ..

theorem grantedBlocks_self {ptrs : List Nat} (h : 0 ∉ ptrs) : grantedBlocks ptrs = ptrs :=
  List.filter_eq_self.mpr fun _ hptr => decide_eq_true fun e => h (e ▸ hptr)

theorem zero_not_mem_grantedBlocks (ptrs : List Nat) : 0 ∉ grantedBlocks ptrs :=
  fun h => of_decide_eq_true (List.mem_filter.mp h).2 rfl

/-- The program's data: what is released was allocated, and all of it but the memory of an ELF file
    whose structure got no block. -/
theorem ProgramData.count (program : ProgramData) (h0 : 0 ∉ program.frees) :
    program.frees.length ≤ (grantedBlocks program.blocks).length ∧
      (grantedBlocks program.blocks).length ≤ program.frees.length + 1 := by
  cases program with
  | binary ptr size =>
    have hne : ptr ≠ 0 := fun e => h0 (e ▸ List.mem_cons_self)
    have e : grantedBlocks (ProgramData.binary ptr size).blocks = [ptr] := grantedBlocks_cons hne []
    rw [e]
    exact ⟨Nat.le_refl _, Nat.le_succ _⟩
  | elf file =>
    unfold ProgramData.frees at h0 ⊢
    unfold ProgramData.blocks
    dsimp only at h0 ⊢
    by_cases ha : file.address = 0
    · rw [if_pos ha, ha]
      refine ⟨Nat.zero_le _, ?_⟩
      by_cases hm : file.elfMemory = 0
      · rw [hm]
        decide
      · rw [grantedBlocks_cons hm]
        exact Nat.le_refl 1
    · rw [if_neg ha] at h0 ⊢
      have hm : file.elfMemory ≠ 0 := fun e => h0 (e ▸ List.mem_cons_self)
      rw [grantedBlocks_cons hm, grantedBlocks_cons ha]
      exact ⟨Nat.le_refl 2, Nat.le_succ 2⟩

/-! ## 4. Exactness -/

/-- **The releases are the allocations**: every block that was allocated for the process and is
    still its own is released once, and nothing else is handed to `kfree`. -/
def FreesExactly (k : Kernel) (process : LoadedProcess) : Prop :=
  (terminateFrees k process).Perm
    (grantedBlocks process.blocks ++ process.process.recorded.map Allocation.ptr)

/-- A process that was loaded, whatever its table has become. -/
theorem processTerminate_inexact {process : LoadedProcess} (h : Loaded process) (p : Process)
    (k : Kernel) : ¬ FreesExactly k { process with process := p } := by
  intro hperm
  obtain ⟨taskBlocks, hblocks, htask⟩ := h.blocks
  -- no allocation is the null pointer, so no release is
  have h0 : 0 ∉ terminateFrees k { process with process := p } := by
    intro hmem
    rcases List.mem_append.mp (hperm.subset hmem) with hmem | hmem
    · exact zero_not_mem_grantedBlocks _ hmem
    · obtain ⟨a, ha, e⟩ := List.mem_map.mp hmem
      exact (mem_recorded.mp ha).2 e
  have hlen := hperm.length_eq
  have hsweep := sweep_count 1024 fun hmem => h0 (List.mem_append_left _ hmem)
  obtain ⟨hprog, hprog'⟩ := process.program.count fun hmem =>
    h0 (List.mem_append_right _ (List.mem_append_left _ hmem))
  have hrec := recorded_length_le p
  unfold terminateFrees at hlen
  dsimp only at hlen hsweep
  rw [hblocks, grantedBlocks_cons h.address, grantedBlocks_cons h.stack, grantedBlocks_append,
    List.length_append, List.length_append, List.length_append, List.length_cons, List.length_cons,
    List.length_cons, List.length_append, List.length_map, taskFrees_length] at hlen
  rcases htask with rfl | ⟨hcount, hno⟩
  · have hnil : (grantedBlocks []).length = 0 := rfl
    omega
  · rw [grantedBlocks_self hno, hcount] at hlen
    omega

/-- A call of the process. -/
inductive ProcessAct : Kernel × Process → Kernel × Process → Prop where
  | malloc (k : Kernel) (p : Process) (size : Nat) : ProcessAct (k, p) (processMalloc k p size).2
  | free (k : Kernel) (p : Process) (ptr : Nat) : ProcessAct (k, p) (processFree k p ptr)

/-- **`process_terminate` never releases exactly what was allocated**, whichever file was loaded and
    whatever the process then allocated and released. -/
theorem processTerminate_never_exact {s s₁ : LoadState π} {filename : List UInt8}
    {process : LoadedProcess} (hp : s.files.kernel.heap.Placed)
    (hl : processLoad s filename = some (.ok process, s₁)) {k : Kernel} {p : Process}
    (_hr : Relation.ReflTransGen ProcessAct (s₁.files.kernel, process.process) (k, p)) :
    ¬ FreesExactly k { process with process := p } :=
  processTerminate_inexact (processLoad_loaded hp hl) p k

/-! ## 5. A binary of 700 bytes -/

/-- The state behind the boot, with the small volume. -/
def smallState : LoadState FileHandle :=
  ⟨fsInit smallKernel (some (fat32Fs oneFileVolume smallPrivate 8)), ⟨0, 0, 0⟩, fun _ => 0, 0⟩

theorem smallState_fits : binaryFits (processLoadData
    (smallState.withKernel (kzalloc smallState.files.kernel 9364).2).files pathA) = true := by
  decide +kernel

theorem smallState_process : (kzalloc smallState.files.kernel 9364).1 ≠ 0 := by decide +kernel

theorem smallState_placed : smallState.files.kernel.heap.Placed := by
  have h : smallKernel.heap.Placed := smallKernel_files.placed
  exact h

/-- **A file of 700 bytes that is no ELF file is loaded.** -/
theorem smallState_loads : ∃ process s₁, processLoad smallState pathA = some (.ok process, s₁) ∧
    s₁.currentProcess = 0 ∧ ∃ directory, process.process = freshProcess directory :=
  processLoad_binary rfl smallState_process smallState_fits

/-- A process that has just been loaded. -/
theorem processTerminate_never_exact_small : ∃ process s₁,
    processLoad smallState pathA = some (.ok process, s₁) ∧
      ¬ FreesExactly s₁.files.kernel process := by
  obtain ⟨process, s₁, hl, -⟩ := smallState_loads
  exact ⟨process, s₁, hl,
    processTerminate_never_exact smallState_placed hl .refl⟩

/-- **The first release is that of the null pointer**, for a process that is loaded and at once
    terminated. -/
theorem processTerminate_null_small : ∃ process s₁ s₂,
    processLoad smallState pathA = some (.ok process, s₁) ∧
      processTerminate s₁ process = some (0, s₂) ∧ 0 ∈ terminateFrees s₁.files.kernel process ∧
      ¬ FreesExactly s₁.files.kernel process := by
  obtain ⟨process, s₁, hl, hcur, directory, hp⟩ := smallState_loads
  have hloaded := processLoad_loaded smallState_placed hl
  have h0 : 0 ∈ terminateFrees s₁.files.kernel process := by
    refine List.mem_append_left _ ?_
    rw [hp]
    exact sweepFrees_null (List.replicate_succ) 1023 _
  obtain ⟨s₂, hs₂⟩ := processTerminate_other (show s₁.currentProcess ≠ process.address
    from fun e => hloaded.address (e.symm.trans hcur))
  exact ⟨process, s₁, s₂, hl, hs₂, h0, processTerminate_inexact hloaded process.process _⟩

end PeachKernel
