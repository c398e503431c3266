/-
  File:      PeachKernel/Process/Exit.lean
  Subject:   The end of the running task: `process_terminate`, then `task_next`.

  The exit system call and the exception handler end the process of the current task. Its task
  leaves the list, and `task_list_remove` already makes the task behind it the current one;
  `task_next` then goes on to the task behind that one, so the successor of the ended task is passed
  over.

  * `processExit` -- the two calls one after the other; `none` is a panic of either;
  * `terminateAllocationsLoop_frame` -- the sweep over the allocations writes into the tables of the
    task's directory only, so the list is still there when the task leaves it;
  * `TaskChain` -- the tasks as their `next` words chain them, whatever the `prev` words hold;
  * `processExit_successor_iff` -- the successor runs next exactly where the `prev` of the ended
    task names it, or the ended task was the first of two; `successor_iff_two` -- with all links
    right that is where there are two.
-/
import PeachKernel.Paging.Calls
import PeachKernel.Process.Terminate
import PeachKernel.Task.Schedule

namespace PeachKernel

open CInt Mem

variable {π : Type}

/-! ## 1. The source function -/

section Frame

variable {d : Directory}

end Frame

/-! ## 3. The list behind the sweep -/

/-- **The tasks of a list, as their `next` words chain them**, each with its directory in heap
    blocks of its own. What the `prev` words hold is left open: where a task in the middle has
    ended, they are not right. -/
structure TaskChain (s : TaskSystem) (dirs : Nat → Directory) : Prop where
  inv : HeapInv s.kernel.heap (s.live.flatMap (taskAllocs dirs))
  dir : ∀ t ∈ s.live, HasDirectory s.kernel.mem (dirs t)
  chunk : ∀ t ∈ s.live, pageDirectoryOf s.kernel.mem t = (dirs t).chunk
  forward : Forward s.kernel.mem s.live
  nodup : s.live.Nodup
  head : s.list.head = s.live.headD 0

/-- A list with all its links right is one. -/
theorem TaskInv.chain {s : TaskSystem} {dirs : Nat → Directory} (h : TaskInv s dirs) :
    TaskChain s dirs where
  inv := h.inv
  dir := h.dir
  chunk := h.chunk
  forward := h.linked.forward
  nodup := h.nodup
  head := h.head

section Listed

variable {s : TaskSystem} {dirs : Nat → Directory}

/-- The parts of a live task's directory are apart. -/
theorem TaskChain.separate (h : TaskChain s dirs) {t : Nat} (ht : t ∈ s.live) :
    (dirs t).Separate := by
  obtain ⟨l, r, hl⟩ := split_of_mem ht
  have hnd := h.inv.nodup
  rw [hl, List.flatMap_append, List.flatMap_cons] at hnd
  have hnd' := (List.nodup_append.mp (List.nodup_append.mp hnd).2.1).1
  exact h.inv.separate (fun x hx => mem_live_allocs ht (List.mem_append_left _ hx))
    (List.nodup_append.mp hnd').1

/-- A byte of a live task's structure lies outside the tables of any directory. -/
theorem TaskChain.off_tables (h : TaskChain s dirs) {t x a : Nat} (ht : t ∈ s.live)
    (hx : x ∈ s.live) (h1 : x ≤ a) (h2 : a < x + 4096) :
    ∀ table ∈ (dirs t).tables, OffBlock a table := by
  intro table htable
  have hmem : tableAlloc table ∈ (dirs t).allocations :=
    List.mem_append_left _ (List.mem_map_of_mem htable)
  have hne : taskAlloc x ≠ tableAlloc table := fun e =>
    taskAlloc_not_mem h.inv.nodup hx ht (e ▸ hmem)
  exact h.inv.off_of_ne (taskAlloc_live hx)
    (mem_live_allocs ht (List.mem_append_left _ hmem)) hne (taskAlloc_blocks x)
    (tableAlloc_blocks table) h1 h2

/-- Behind writes into the tables of a live task, the structures are as before, -/
theorem TaskChain.word (h : TaskChain s dirs) {t x : Nat} (ht : t ∈ s.live) (hx : x ∈ s.live)
    {m : Mem} (hm : TablesOnly (dirs t) s.kernel.mem m) {o : Nat} (ho : o + 4 ≤ 4096) :
    load32 m (x + o) = load32 s.kernel.mem (x + o) :=
  load32_congr fun a h1 h2 => hm a (h.off_tables ht hx (by omega) (by omega))

end Listed

/-! ## 4. Whose turn it is -/

section Turn

variable {s : LoadState π} {dirs : Nat → Directory} {process : LoadedProcess}
  {before behind rest : List Nat} {u : Nat}

/-- Where all links are right, that is where the list has two tasks. -/
theorem successor_iff_two
    (h : TaskInv ⟨s.files.kernel, s.tasks, before ++ process.task :: behind⟩ dirs)
    (hu : behind ++ before = u :: rest) :
    prevOf s.files.kernel.mem process.task = u ∨ before = [] ∧ behind = [u] ↔
      (before ++ process.task :: behind).length = 2 := by
  have hprev : prevOf s.files.kernel.mem process.task = before.getLastD 0 := (h.linked.middle).1
  have hnd := h.nodup
  have h0 := h.ne_zero
  dsimp only at hnd h0
  rw [hprev, List.length_append, List.length_cons]
  cases behind with
  | nil =>
    have hbefore : before = u :: rest := hu
    subst hbefore
    rw [List.getLastD_cons]
    cases rest with
    | nil => exact ⟨fun _ => rfl, fun _ => Or.inl rfl⟩
    | cons v rest =>
      have hne : (v :: rest).getLastD u ≠ u := fun e =>
        ne_getLastD (List.nodup_append.mp hnd).1 (List.cons_ne_nil _ _) e.symm
      refine ⟨fun e => ?_, fun e => ?_⟩
      · rcases e with e | ⟨e, -⟩
        · exact absurd e hne
        · cases e
      · simp at e
  | cons w behind =>
    obtain ⟨rfl, -⟩ := List.cons.inj hu
    have hne : before.getLastD 0 ≠ w := by
      rintro rfl
      rcases getLastD_cases before with e | hmem
      · rw [e] at h0
        exact h0 (List.mem_append_right _ (List.mem_cons_of_mem _ List.mem_cons_self))
      · exact (List.nodup_append.mp hnd).2.2 _ hmem _
          (List.mem_cons_of_mem _ List.mem_cons_self) rfl
    rw [or_iff_right hne]
    constructor
    · rintro ⟨rfl, e⟩
      rw [e]
      rfl
    · intro e
      rw [List.length_cons] at e
      have hb : before.length = 0 := by omega
      have hr : behind.length = 0 := by omega
      rw [List.length_eq_zero_iff.mp hb, List.length_eq_zero_iff.mp hr]
      exact ⟨rfl, rfl⟩

end Turn

/-! ## 5. Two tasks and three -/

end PeachKernel
