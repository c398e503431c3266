/-
  File:      PeachKernel/Task/Blocks.lean
  Subject:   The 1027 heap blocks of a task, as answers of `kzalloc`.

  `task_new` asks for the task, the directory, its 1024 tables and the chunk, and looks at the first
  and the last answer only. Every request fits a block, so a request is refused exactly when no
  block is free: where the last one was granted, all were.

  * `mallocAll` -- the answers to a list of requests; `mallocAll_granted`, `mallocAll_room`;
  * `taskNew_granted`, `taskNew_room` -- a task that was created has its blocks, and there was room;
  * `taskNew_free`, `taskNew_created` -- with room for it a task is created; what that is.
-/
import PeachKernel.Task.List

namespace PeachKernel

open CInt Mem

/-! ## 1. Requests -/

/-- The answers to requests of these sizes, one after the other, and the heap behind them. -/
def mallocAll : (sizes : List Nat) → Heap → List Nat × Heap
  | [], heap => ([], heap)
  | size :: sizes, heap =>
    match heapMalloc heap size with
    | (ptr, heap) =>
      match mallocAll sizes heap with
      | (ptrs, heap) => (ptr :: ptrs, heap)

/-- What `task_new` asks for: the task, the directory, its tables, the chunk. -/
def taskSizes : List Nat := (64 :: 4096 :: List.replicate 1024 4096) ++ [4]

/-! ## 2. Granted requests -/

section Blocks

variable {heap : Heap}

theorem mallocAll_length (sizes : List Nat) :
    ∀ heap : Heap, (mallocAll sizes heap).1.length = sizes.length := by
  induction sizes with
  | nil => exact fun _ => rfl
  | cons size sizes ih => exact fun heap => congrArg (· + 1) (ih (heapMalloc heap size).2)

theorem mallocAll_cons (size : Nat) (sizes : List Nat) (heap : Heap) :
    mallocAll (size :: sizes) heap =
      ((heapMalloc heap size).1 :: (mallocAll sizes (heapMalloc heap size).2).1,
        (mallocAll sizes (heapMalloc heap size).2).2) :=
  rfl

theorem mallocAll_append (sizes sizes' : List Nat) : ∀ heap : Heap,
    mallocAll (sizes ++ sizes') heap =
      ((mallocAll sizes heap).1 ++ (mallocAll sizes' (mallocAll sizes heap).2).1,
        (mallocAll sizes' (mallocAll sizes heap).2).2) := by
  induction sizes with
  | nil => exact fun _ => rfl
  | cons size sizes ih =>
    intro heap
    have hrec := ih (heapMalloc heap size).2
    simp only [List.cons_append, mallocAll, hrec]

theorem mallocAll_placed (sizes : List Nat) :
    ∀ {heap : Heap}, heap.Placed → (mallocAll sizes heap).2.Placed := by
  induction sizes with
  | nil => exact fun h => h
  | cons size sizes ih => exact fun h => ih (h.malloc size)

/-- A request of at most a page takes at most one block from the count. -/
theorem heapMalloc_freeBlocks (hp : heap.Placed) {size : Nat} (h1 : 1 ≤ size) (h2 : size ≤ 4096) :
    freeBlocks (heapMalloc heap size).2 ≤ freeBlocks heap ∧
      (freeBlocks heap ≠ 0 → (heapMalloc heap size).1 ≠ 0) := by
  have eh := kzalloc_heap ⟨heap, fun _ => 0⟩ size
  have ep := kzalloc_ptr ⟨heap, fun _ => 0⟩ size
  dsimp only at eh ep
  rw [← eh, ← ep]
  by_cases hf : freeBlocks heap = 0
  · rw [kzalloc_full (k := ⟨heap, fun _ => 0⟩) hp hf h1 h2]
    exact ⟨Nat.le_refl _, fun h => absurd hf h⟩
  · obtain ⟨ptr, k', e, hne, -, hfree⟩ :=
      kzalloc_one (k := ⟨heap, fun _ => 0⟩) hp (Nat.pos_of_ne_zero hf) size h1 h2
    dsimp only at hfree
    rw [e]
    refine ⟨?_, fun _ => hne⟩
    show freeBlocks k'.heap ≤ freeBlocks heap
    omega

theorem mallocAll_freeBlocks (sizes : List Nat) : ∀ {heap : Heap}, heap.Placed →
    (∀ size ∈ sizes, 1 ≤ size ∧ size ≤ 4096) →
    freeBlocks (mallocAll sizes heap).2 ≤ freeBlocks heap ∧
      (freeBlocks (mallocAll sizes heap).2 ≠ 0 → 0 ∉ (mallocAll sizes heap).1) := by
  induction sizes with
  | nil => exact fun _ _ => ⟨Nat.le_refl _, fun _ => List.not_mem_nil⟩
  | cons size sizes ih =>
    intro heap hp hs
    obtain ⟨h1, h2⟩ := hs size List.mem_cons_self
    obtain ⟨hle, hne⟩ := heapMalloc_freeBlocks hp h1 h2
    obtain ⟨hle', hno⟩ := ih (hp.malloc size) fun x hx => hs x (List.mem_cons_of_mem _ hx)
    refine ⟨Nat.le_trans hle' hle, fun hlast hmem => ?_⟩
    have hlast' : freeBlocks (mallocAll sizes (heapMalloc heap size).2).2 ≠ 0 := hlast
    rcases List.mem_cons.mp hmem with h0 | hmem
    · exact hne (by omega) h0.symm
    · exact hno hlast' hmem

/-- **Requests whose last one is granted are all granted.** -/
theorem mallocAll_granted (sizes : List Nat) {last : Nat} (hp : heap.Placed)
    (hs : ∀ size ∈ sizes, 1 ≤ size ∧ size ≤ 4096) (h1 : 1 ≤ last) (h2 : last ≤ 4096)
    (hlast : (heapMalloc (mallocAll sizes heap).2 last).1 ≠ 0) :
    0 ∉ (mallocAll (sizes ++ [last]) heap).1 := by
  rw [mallocAll_append]
  have hfree : freeBlocks (mallocAll sizes heap).2 ≠ 0 := by
    intro hf
    have hnull := kzalloc_full (k := ⟨(mallocAll sizes heap).2, fun _ => 0⟩)
      (mallocAll_placed sizes hp) hf h1 h2
    rw [← kzalloc_ptr ⟨(mallocAll sizes heap).2, fun _ => 0⟩, hnull] at hlast
    exact hlast rfl
  intro hmem
  rcases List.mem_append.mp hmem with hmem | hmem
  · exact (mallocAll_freeBlocks sizes hp hs).2 hfree hmem
  · exact hlast (List.mem_singleton.mp hmem).symm

/-- The heap behind the tables. -/
theorem directoryLoop_heap (directory flags left : Nat) : ∀ (i offset : Nat) (k : Kernel),
    (directoryLoop directory flags left i offset k).heap =
      (mallocAll (List.replicate left 4096) k.heap).2 := by
  induction left with
  | zero => exact fun _ _ _ => rfl
  | succ left ih =>
    intro i offset k
    rw [directoryLoop, List.replicate_succ]
    dsimp only
    rw [ih, kzalloc_heap]
    rfl

/-- The chunk is the answer to the last request. -/
theorem pagingNew4gb_chunk (k : Kernel) (flags : Nat) : (pagingNew4gb k flags).1 =
    (heapMalloc (mallocAll (4096 :: List.replicate 1024 4096) k.heap).2 4).1 := by
  unfold pagingNew4gb
  dsimp only
  rw [kzalloc_ptr, directoryLoop_heap, kzalloc_heap, mallocAll_cons]

theorem taskSizes_granted (hp : heap.Placed)
    (h : (heapMalloc (mallocAll (4096 :: List.replicate 1024 4096) (heapMalloc heap 64).2).2 4).1 ≠
        0) :
    0 ∉ (mallocAll taskSizes heap).1 := by
  have hgen : ∀ tables : List Nat, (∀ size ∈ tables, size = 4096) →
      (heapMalloc (mallocAll (4096 :: tables) (heapMalloc heap 64).2).2 4).1 ≠ 0 →
      0 ∉ (mallocAll ((64 :: 4096 :: tables) ++ [4]) heap).1 := by
    intro tables ht hlast
    refine mallocAll_granted _ hp (fun size hs => ?_) (by decide) (by decide) hlast
    rcases List.mem_cons.mp hs with rfl | hs
    · decide
    rcases List.mem_cons.mp hs with rfl | hs
    · decide
    · rw [ht size hs]
      decide
  exact hgen _ (fun _ => List.eq_of_mem_replicate) h

/-- **A task that was created** got every block it asked for. -/
theorem taskNew_granted {k : Kernel} (hp : k.heap.Placed) {g : TaskGlobals} {process : TaskProcess}
    {task : Nat} (h : (taskNew k g process).1 = .ok task) :
    task ≠ 0 ∧ 0 ∉ (mallocAll taskSizes k.heap).1 := by
  unfold taskNew at h
  dsimp only at h
  by_cases h0 : (kzalloc k 64).1 = 0
  · rw [if_pos h0] at h
    cases h
  rw [if_neg h0] at h
  by_cases hi : (taskInit (kzalloc k 64).2 (kzalloc k 64).1 process).1 < 0
  · rw [if_pos hi] at h
    cases h
  rw [if_neg hi] at h
  have htask : task = (kzalloc k 64).1 := by
    split at h
    · exact (Except.ok.inj h).symm
    · split at h
      · exact (Except.ok.inj h).symm
      · exact (Except.ok.inj h).symm
  have hchunk : (pagingNew4gb
      ⟨(kzalloc k 64).2.heap, fill (kzalloc k 64).2.mem (kzalloc k 64).1 0 64⟩
        (pagingIsPresent ||| pagingAccessFromAll)).1 ≠ 0 := by
    intro hc
    refine hi ?_
    unfold taskInit
    dsimp only
    rw [if_pos hc]
    exact (by decide : - EIO < 0)
  rw [pagingNew4gb_chunk] at hchunk
  dsimp only at hchunk
  rw [kzalloc_heap] at hchunk
  exact ⟨htask ▸ h0, taskSizes_granted hp hchunk⟩

/-- A creation with enough blocks. -/
theorem taskNew_free {k : Kernel} (hp : k.heap.Placed) (hf : 1027 ≤ freeBlocks k.heap)
    (g : TaskGlobals) (process : TaskProcess) :
    ∃ task, (taskNew k g process).1 = .ok task ∧ task ≠ 0 := by
  obtain ⟨task, k', d, -, hne, e⟩ := taskNew_grows (HeapInv.nil hp) hf g process
  exact ⟨task, congrArg Prod.fst e, hne⟩

/-- **Requests that were all granted** had a block each. -/
theorem mallocAll_room (sizes : List Nat) : ∀ {heap : Heap}, heap.Placed →
    (∀ size ∈ sizes, 1 ≤ size ∧ size ≤ 4096) → 0 ∉ (mallocAll sizes heap).1 →
    sizes.length ≤ freeBlocks heap := by
  induction sizes with
  | nil => exact fun _ _ _ => Nat.zero_le _
  | cons size sizes ih =>
    intro heap hp hs hno
    obtain ⟨h1, h2⟩ := hs size List.mem_cons_self
    rw [mallocAll_cons] at hno
    have hrest := ih (hp.malloc size) (fun x hx => hs x (List.mem_cons_of_mem _ hx))
      fun h => hno (List.mem_cons_of_mem _ h)
    have hne : freeBlocks heap ≠ 0 := by
      intro hf
      refine hno (List.mem_cons.mpr (Or.inl ?_))
      rw [← kzalloc_ptr ⟨heap, fun _ => 0⟩, kzalloc_full (k := ⟨heap, fun _ => 0⟩) hp hf h1 h2]
    obtain ⟨ptr, k', e, -, -, hfree⟩ :=
      kzalloc_one (k := ⟨heap, fun _ => 0⟩) hp (Nat.pos_of_ne_zero hne) size h1 h2
    have eh := kzalloc_heap ⟨heap, fun _ => 0⟩ size
    rw [e] at eh
    dsimp only at eh hfree
    rw [← eh] at hrest
    rw [List.length_cons]
    omega

theorem taskSizes_length : taskSizes.length = 1027 := by
  rw [taskSizes, List.length_append, List.length_cons, List.length_cons, List.length_replicate]
  rfl

theorem taskSizes_small {size : Nat} (h : size ∈ taskSizes) : 1 ≤ size ∧ size ≤ 4096 := by
  rw [taskSizes, List.mem_append] at h
  rcases h with h | h
  · rcases List.mem_cons.mp h with rfl | h
    · decide
    rcases List.mem_cons.mp h with rfl | h
    · decide
    · rw [List.eq_of_mem_replicate h]
      decide
  · rw [List.mem_singleton.mp h]
    decide

/-- A task that was created had room. -/
theorem taskNew_room {k : Kernel} (hp : k.heap.Placed) {g : TaskGlobals} {process : TaskProcess}
    {task : Nat} (h : (taskNew k g process).1 = .ok task) : 1027 ≤ freeBlocks k.heap := by
  rw [← taskSizes_length]
  exact mallocAll_room taskSizes hp (fun _ => taskSizes_small) (taskNew_granted hp h).2

/-- **A task that was created**, word by word. -/
theorem taskNew_created {k : Kernel} {live : List Allocation} (h : HeapInv k.heap live)
    {g : TaskGlobals} {process : TaskProcess} {task : Nat}
    (ht : (taskNew k g process).1 = .ok task) : ∃ k' d, TaskMade k k' live d task process ∧
      taskNew k g process = (.ok task, if g.head = 0 then (k', ⟨task, task, task⟩) else
        (⟨k'.heap, store32 (store32 k'.mem (g.tail + 56) task) (task + 60) g.tail⟩,
          { g with tail := task })) := by
  obtain ⟨t, k', d, hmade, -, e⟩ := taskNew_grows h (taskNew_room h.placed ht) g process
  rw [e] at ht
  obtain rfl := Except.ok.inj ht
  exact ⟨k', d, hmade, e⟩

end Blocks

end PeachKernel
