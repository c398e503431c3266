/-
  File:      PeachKernel/Task/Registers.lean
  Subject:   The registers that the tasks' structures hold, and what other code of the kernel leaves
             of the tasks' memory.

  * `LeavesTasks` -- code that leaves the structures and directories of the tasks alone;
  * `taskInv_save` -- saving the registers of a task;
  * `taskNew_registers` -- a new task has the registers with which its program starts, the others
    keep theirs; `taskFree_registers` -- so they do when the last one is released.
-/
import PeachKernel.Process.Exit
import PeachKernel.Task.Schedule
import PeachKernel.Task.Switch

namespace PeachKernel

open Mem

/-! ## 1. The tasks' own memory -/

/-- **Code that leaves the tasks alone**: what is allocated for them stays allocated, their
    structures stay as they are, and so do their directories, but for the entries of the tables. -/
structure LeavesTasks (s s' : TaskSystem) : Prop where
  list : s'.list = s.list
  live : s'.live = s.live
  place : s'.kernel.heap.saddr = s.kernel.heap.saddr
  parts : ∀ dirs, TaskInv s dirs → HeapInv s'.kernel.heap (s.live.flatMap (taskAllocs dirs)) ∧
    ∀ t ∈ s.live, HasDirectory s'.kernel.mem (dirs t)
  word : ∀ t ∈ s.live, ∀ o, o + 4 ≤ 64 → load32 s'.kernel.mem (t + o) = load32 s.kernel.mem (t + o)

/-- The registers in two memories with the same words there. -/
theorem savedRegisters_congr {m m' : Mem} {t : Nat}
    (h : ∀ o, 4 ≤ o → o + 4 ≤ 52 → load32 m' (t + o) = load32 m (t + o)) :
    savedRegisters m' t = savedRegisters m t := by
  unfold savedRegisters
  rw [h 4 (by decide) (by decide), h 8 (by decide) (by decide), h 12 (by decide) (by decide),
    h 16 (by decide) (by decide), h 20 (by decide) (by decide), h 24 (by decide) (by decide),
    h 28 (by decide) (by decide), h 32 (by decide) (by decide), h 36 (by decide) (by decide),
    h 40 (by decide) (by decide), h 44 (by decide) (by decide), h 48 (by decide) (by decide)]

/-- The links of the tasks decide. -/
theorem Linked.congr {m m' : Mem} (ts : List Nat) : ∀ {p : Nat}, Linked m p ts →
    (∀ x ∈ ts, prevOf m' x = prevOf m x ∧ nextOf m' x = nextOf m x) → Linked m' p ts := by
  induction ts with
  | nil =>
    intro p _ _
    trivial
  | cons t ts ih =>
    intro p h hw
    obtain ⟨hprev, hnext⟩ := hw t List.mem_cons_self
    exact ⟨hprev.trans h.1, hnext.trans h.2.1,
      ih h.2.2 fun x hx => hw x (List.mem_cons_of_mem _ hx)⟩

section Tasks

variable {s s' : TaskSystem} {dirs : Nat → Directory}

/-- The invariant is about the heap, the directories and three words of each structure. -/
theorem TaskInv.of_words (h : TaskInv s dirs) {heap : Heap} {m : Mem}
    (hheap : HeapInv heap (s.live.flatMap (taskAllocs dirs)))
    (hdir : ∀ t ∈ s.live, HasDirectory m (dirs t))
    (hword : ∀ t ∈ s.live, pageDirectoryOf m t = pageDirectoryOf s.kernel.mem t ∧
      nextOf m t = nextOf s.kernel.mem t ∧ prevOf m t = prevOf s.kernel.mem t) :
    TaskInv ⟨⟨heap, m⟩, s.list, s.live⟩ dirs where
  inv := hheap
  small := h.small
  dir := hdir
  chunk t ht := (hword t ht).1.trans (h.chunk t ht)
  linked := Linked.congr _ h.linked fun t ht => ⟨(hword t ht).2.2, (hword t ht).2.1⟩
  nodup := h.nodup
  head := h.head
  tail := h.tail
  current := h.current

theorem LeavesTasks.inv (h : LeavesTasks s s') (hi : TaskInv s dirs) : TaskInv s' dirs := by
  obtain ⟨hheap, hdir⟩ := h.parts dirs hi
  have hnew := hi.of_words hheap hdir fun t ht =>
    ⟨h.word t ht 0 (by decide), h.word t ht 56 (by decide), h.word t ht 60 (by decide)⟩
  rwa [← h.list, ← h.live] at hnew

theorem LeavesTasks.saved (h : LeavesTasks s s') {t : Nat} (ht : t ∈ s.live) :
    savedRegisters s'.kernel.mem t = savedRegisters s.kernel.mem t :=
  savedRegisters_congr fun o _ ho => h.word t ht o (by omega)

/-- A task's structure lies in the heap. -/
theorem TaskInv.bounds (h : TaskInv s dirs) {t : Nat} (ht : t ∈ s.live) :
    s.kernel.heap.saddr ≤ t ∧ t + 4096 < 4294967296 := by
  have haddr : t = s.kernel.heap.saddr + ((taskAlloc t).extent s.kernel.heap.saddr).start * 4096 :=
    h.inv.addr _ (taskAlloc_live ht)
  have hend := (h.inv.end_lt (taskAlloc_live ht)).2
  rw [taskAlloc_blocks] at hend
  exact ⟨by omega, hend⟩

/-- The parts of a task lie in the heap. -/
theorem TaskInv.part_bounds (h : TaskInv s dirs) {t : Nat} (ht : t ∈ s.live) {x : Allocation}
    (hx : x ∈ taskAllocs dirs t) : s.kernel.heap.saddr ≤ x.ptr := by
  have haddr := h.inv.addr x (mem_live_allocs ht hx)
  omega

/-- Memory that changes below the heap only. -/
theorem leavesTasks_below {m : Mem} {bound : Nat} (hbound : bound ≤ s.kernel.heap.saddr)
    (hm : ∀ a, bound ≤ a → m a = s.kernel.mem a) (hi : TaskInv s dirs) :
    LeavesTasks s ⟨⟨s.kernel.heap, m⟩, s.list, s.live⟩ where
  list := rfl
  live := rfl
  place := rfl
  parts dirs' hi' := by
    refine ⟨hi'.inv, fun t ht => (hi'.dir t ht).congr (fun a h1 _ => hm a ?_) fun a h1 _ => hm a ?_⟩
    · have hpart : (⟨(dirs' t).chunk, 4⟩ : Allocation) ∈ taskAllocs dirs' t := by
        simp [taskAllocs, Directory.allocations]
      have hle : s.kernel.heap.saddr ≤ (dirs' t).chunk := hi'.part_bounds ht hpart
      omega
    · have hpart : tableAlloc (dirs' t).directory ∈ taskAllocs dirs' t := by
        simp [taskAllocs, Directory.allocations]
      have hle : s.kernel.heap.saddr ≤ (dirs' t).directory := hi'.part_bounds ht hpart
      omega
  word t ht o _ := by
    have hle := (hi.bounds ht).1
    exact load32_congr fun a h1 _ => hm a (by omega)

/-- **Saving the registers of a task** leaves the list, the directories and the other tasks. -/
theorem taskInv_save (h : TaskInv s dirs) {t : Nat} (ht : t ∈ s.live) {m : Mem}
    (hm : ∀ a, a < t + 4 ∨ t + 52 ≤ a → m a = s.kernel.mem a) :
    TaskInv ⟨⟨s.kernel.heap, m⟩, s.list, s.live⟩ dirs ∧
      ∀ u ∈ s.live, u ≠ t → savedRegisters m u = savedRegisters s.kernel.mem u := by
  -- a byte of another allocation
  have hoff : ∀ x ∈ s.live.flatMap (taskAllocs dirs), x ≠ taskAlloc t → blocksFor x.size = 1 →
      ∀ a, x.ptr ≤ a → a < x.ptr + 4096 → m a = s.kernel.mem a := by
    intro x hx hne hx1 a h1 h2
    have hout := h.inv.off_of_ne hx (taskAlloc_live ht) hne hx1 (taskAlloc_blocks t) h1 h2
    unfold OffBlock at hout
    have ht' : (taskAlloc t).ptr = t := rfl
    exact hm a (by omega)
  have hword : ∀ u ∈ s.live, u ≠ t → ∀ o, o + 4 ≤ 64 →
      load32 m (u + o) = load32 s.kernel.mem (u + o) := by
    intro u hu hne o ho
    have hne' : taskAlloc u ≠ taskAlloc t := fun e => hne (congrArg Allocation.ptr e)
    have hptr : (taskAlloc u).ptr = u := rfl
    exact load32_congr fun a h1 h2 =>
      hoff _ (taskAlloc_live hu) hne' (taskAlloc_blocks u) a (by omega) (by omega)
  have hlink : ∀ u ∈ s.live, ∀ o, o + 4 ≤ 4 ∨ 52 ≤ o ∧ o + 4 ≤ 64 →
      load32 m (u + o) = load32 s.kernel.mem (u + o) := by
    intro u hu o ho
    by_cases hut : u = t
    · subst hut
      exact load32_congr fun a h1 h2 => hm a (by omega)
    · exact hword u hu hut o (by omega)
  refine ⟨h.of_words h.inv (fun u hu => ?_) fun u hu =>
    ⟨hlink u hu 0 (by decide), hlink u hu 56 (by decide), hlink u hu 60 (by decide)⟩,
    fun u hu hne => savedRegisters_congr fun o _ ho => hword u hu hne o (by omega)⟩
  have hpart : ∀ x ∈ (dirs u).allocations, ∀ a, x.ptr ≤ a → a < x.ptr + 4096 →
      m a = s.kernel.mem a := by
    intro x hx
    refine hoff x (mem_live_allocs hu (List.mem_append_left _ hx)) ?_
      (h.small u hu x (List.mem_append_left _ hx))
    rintro rfl
    exact taskAlloc_not_mem h.inv.nodup ht hu hx
  refine (h.dir u hu).congr (fun a h1 h2 => ?_) fun a h1 h2 => ?_
  · exact hpart ⟨(dirs u).chunk, 4⟩ (by simp [Directory.allocations]) a h1
      (show a < (dirs u).chunk + 4096 by omega)
  · exact hpart (tableAlloc (dirs u).directory) (by simp [Directory.allocations]) a h1 h2

end Tasks

/-! ## 2. Creation and release -/

/-- `task_init`: the registers with which a program starts. -/
def initialRegisters (process : TaskProcess) : TaskRegisters where
  edi := 0
  esi := 0
  ebp := 0
  ebx := 0
  edx := 0
  ecx := 0
  eax := 0
  ip := UInt32.ofNat (process.elfEntry.getD 0x400000)
  cs := 3 * 8 + 3
  flags := 0x202
  esp := 0x3FF000
  ss := 4 * 8 + 3

/-- The words of a new task's structure. -/
theorem taskInitRegisters_words {m : Mem} {t : Nat} {process : TaskProcess}
    (hz : ∀ a, t + 4 ≤ a → a < t + 64 → m a = 0)
    (hentry : ∀ entry, process.elfEntry = some entry → entry < 4294967296) :
    (∀ o, 4 ≤ o → o + 4 ≤ 32 → load32 (taskInitRegisters m t process) (t + o) = 0) ∧
    load32 (taskInitRegisters m t process) (t + 32) = process.elfEntry.getD 0x400000 ∧
    load32 (taskInitRegisters m t process) (t + 36) = 3 * 8 + 3 ∧
    load32 (taskInitRegisters m t process) (t + 40) = 0x202 ∧
    load32 (taskInitRegisters m t process) (t + 44) = 0x3FF000 ∧
    load32 (taskInitRegisters m t process) (t + 48) = 4 * 8 + 3 := by
  have hzero : ∀ o, 4 ≤ o → o + 4 ≤ 32 → load32 m (t + o) = 0 := by
    intro o h1 h2
    exact load32_zero fun a _ _ => hz a (by omega) (by omega)
  unfold taskInitRegisters
  obtain ⟨address, elfEntry⟩ := process
  cases elfEntry with
  | none =>
    refine ⟨fun o h1 h2 => ?_, ?_, ?_, ?_, ?_, ?_⟩
    · simp (disch := omega) only [load32_store32_other]
      exact hzero o h1 h2
    all_goals simp (disch := omega) [load32_store32_other, load32_store32_same]
  | some entry =>
    have he : entry < 4294967296 := hentry entry rfl
    refine ⟨fun o h1 h2 => ?_, ?_, ?_, ?_, ?_, ?_⟩
    · simp (disch := omega) only [load32_store32_other]
      exact hzero o h1 h2
    all_goals simp (disch := omega) [load32_store32_other, load32_store32_same]

/-- ... are the registers with which its program starts. -/
theorem taskInitRegisters_saved {m : Mem} {t : Nat} {process : TaskProcess}
    (hz : ∀ a, t + 4 ≤ a → a < t + 64 → m a = 0)
    (hentry : ∀ entry, process.elfEntry = some entry → entry < 4294967296) :
    savedRegisters (taskInitRegisters m t process) t = initialRegisters process := by
  obtain ⟨h0, hip, hcs, hflags, hesp, hss⟩ := taskInitRegisters_words hz hentry
  unfold savedRegisters initialRegisters
  rw [h0 4 (by decide) (by decide), h0 8 (by decide) (by decide), h0 12 (by decide) (by decide),
    h0 16 (by decide) (by decide), h0 20 (by decide) (by decide), h0 24 (by decide) (by decide),
    h0 28 (by decide) (by decide), hip, hcs, hflags, hesp, hss]
  rfl

section Creation

variable {s : TaskSystem} {dirs : Nat → Directory}

/-- A creation takes blocks of the heap; the heap stays where it is. -/
theorem taskNew_place (h : TaskInv s dirs) {process : TaskProcess} {t : Nat}
    (hnew : (taskNew s.kernel s.list process).1 = .ok t) :
    (s.new process).kernel.heap.saddr = s.kernel.heap.saddr := by
  obtain ⟨k', d, hmade, e⟩ := taskNew_created h.inv hnew
  rw [← hmade.grows.saddr]
  unfold TaskSystem.new
  rw [e]
  dsimp only
  split
  · rfl
  · rfl

/-- **A creation beside other tasks**: the new task is the last one, its structure holds the
    registers with which its program starts, and the others' hold theirs. -/
theorem taskNew_registers (h : TaskInv s dirs) (hne : s.live ≠ []) {process : TaskProcess} {t : Nat}
    (hentry : ∀ entry, process.elfEntry = some entry → entry < 4294967296)
    (hnew : (taskNew s.kernel s.list process).1 = .ok t) :
    (∃ dirs', TaskInv (s.new process) dirs') ∧ (s.new process).live = s.live ++ [t] ∧ t ∉ s.live ∧
      (s.new process).kernel.heap.saddr = s.kernel.heap.saddr ∧
      savedRegisters (s.new process).kernel.mem t = initialRegisters process ∧
      ∀ u ∈ s.live, savedRegisters (s.new process).kernel.mem u =
        savedRegisters s.kernel.mem u := by
  obtain ⟨hlive, hinv, -⟩ := taskInv_created h hnew
  obtain ⟨k', d, hmade, e⟩ := taskNew_created h.inv hnew
  obtain ⟨m, hm, hz⟩ := hmade.registers
  have hi := taskInv_initialised h hmade
  obtain ⟨us, u, hus⟩ := (List.eq_nil_or_concat s.live).resolve_left hne
  rw [List.concat_eq_append] at hus
  have hlast : s.live.getLastD 0 = u := by rw [hus, List.getLastD_concat]
  have hu : u ∈ s.live := by
    rw [hus]
    exact List.mem_append_right _ List.mem_cons_self
  have hh : ¬ s.list.head = 0 := by
    rw [h.head]
    intro h0
    cases e : s.live with
    | nil => exact hne e
    | cons x xs =>
      rw [e, List.headD_cons] at h0
      exact h.ne_zero (e ▸ List.mem_cons.mpr (Or.inl h0.symm))
  have hstate : s.new process = ⟨⟨k'.heap, store32 (store32 k'.mem (u + 56) t) (t + 60) u⟩,
      { s.list with tail := t }, s.live ++ [t]⟩ := by
    unfold TaskSystem.new
    rw [e, if_neg hh, h.tail, hlast]
    rfl
  have htm : t ∈ s.live ++ [t] := List.mem_append_right _ List.mem_cons_self
  -- the links are none of the registers
  have hsame : ∀ x ∈ s.live ++ [t], savedRegisters (s.new process).kernel.mem x =
      savedRegisters k'.mem x := by
    intro x hx
    rw [hstate]
    refine savedRegisters_congr fun o _ ho => ?_
    rw [task_load_store hi.inv (taskAlloc_live hx) (taskAlloc_live htm) (Or.inr (Or.inl (by omega)))
        (by omega) (by decide),
      task_load_store hi.inv (taskAlloc_live hx) (taskAlloc_live (List.mem_append_left _ hu))
        (Or.inr (Or.inl (by omega))) (by omega) (by decide)]
  refine ⟨hinv, hlive, hi.fresh, taskNew_place h hnew, ?_, fun x hx => ?_⟩
  · rw [hsame t htm, hm]
    exact taskInitRegisters_saved hz hentry
  · rw [hsame x (List.mem_append_left _ hx)]
    exact savedRegisters_congr fun o _ ho => hi.word x hx o (by omega)

theorem foldl_heapFree_saddr (allocs : List Allocation) : ∀ (heap : Heap),
    (allocs.foldl (fun h a => heapFree h a.ptr) heap).saddr = heap.saddr := by
  induction allocs with
  | nil => exact fun _ => rfl
  | cons a allocs ih =>
    intro heap
    rw [List.foldl_cons, ih]
    rfl

/-- **A release of the last one of several tasks**: the others' structures hold their registers, and
    where the last one was the current task the first one is. -/
theorem taskFree_registers (h : TaskInv s dirs) {l : List Nat} {t : Nat} (hl : s.live = l ++ [t])
    (hne : l ≠ []) (hcur : s.list.current = t) :
    TaskInv (s.free t) dirs ∧ (s.free t).live = l ∧
      (s.free t).kernel.heap.saddr = s.kernel.heap.saddr ∧ (s.free t).list.current = l.headD 0 ∧
      ∀ u ∈ l, savedRegisters (s.free t).kernel.mem u = savedRegisters s.kernel.mem u := by
  obtain ⟨ht, -, -, herase, -, -⟩ := h.last hl
  obtain ⟨us, v, hus⟩ := (List.eq_nil_or_concat l).resolve_left hne
  rw [List.concat_eq_append] at hus
  have hlast : l.getLastD 0 = v := by rw [hus, List.getLastD_concat]
  have hv : v ∈ l := by
    rw [hus]
    exact List.mem_append_right _ List.mem_cons_self
  have hin : ∀ u ∈ l, u ∈ s.live := fun u hu => hl ▸ List.mem_append_left _ hu
  have heq := taskFree_eq h ht
  rw [taskListRemove_last h hl hv hlast, if_pos hcur.symm, herase] at heq
  refine ⟨taskInv_free_last h hl, ?_, ?_, ?_, fun u hu => ?_⟩
  · rw [heq]
  · rw [heq]
    exact foldl_heapFree_saddr _ _
  · rw [heq]
  · rw [heq]
    exact savedRegisters_congr fun o _ ho =>
      h.load_next (hin v hv) (hin u hu) (by omega) (Or.inr (Or.inl (by omega)))

end Creation

end PeachKernel
